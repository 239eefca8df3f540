import Mathlib.Data.List.TakeWhile
import NdnCxx.Foundation.UnorderedMap
import NdnCxx.Mgmt.Controller

/-!
# The levels of the loggers

`LoggerFactory` remembers the level of each module for loggers to come, and passes it on to those that
are registered. The level of `*` replaces all others. Of the two public ways to set a level, the one
for several modules does so, and the one for a single module calls itself.
-/

namespace NdnCxx

open Mgmt (LogLevel)

/-- A registered `Logger`; it is told apart by its place in the registry. -/
structure Logger where
  moduleName : List Char
  currentLevel : LogLevel
  deriving DecidableEq

/-- `LoggerFactory`. `m_loggers` is in the order of the registrations. -/
structure LoggerFactory where
  enabledLevel : UnorderedMap (List Char) LogLevel fun key other ↦ decide (key = other)
  loggers : List Logger

namespace LoggerFactory

abbrev InvalidArgument := List Char

def allModules : List Char := ['*']

variable (factory : LoggerFactory)

def levelOf (moduleName : List Char) : LogLevel :=
  match factory.enabledLevel.find? moduleName with
  | some level => level
  | none => (factory.enabledLevel.find? allModules).getD .info

def addLogger (moduleName : List Char) : LoggerFactory :=
  { factory with loggers := factory.loggers ++ [⟨moduleName, factory.levelOf moduleName⟩] }

def setSeverityLevelImpl (moduleName : List Char) (level : LogLevel) : LoggerFactory :=
  if moduleName = allModules then
    { enabledLevel := UnorderedMap.empty.assign allModules level
      loggers := factory.loggers.map fun logger ↦ { logger with currentLevel := level } }
  else
    { enabledLevel := factory.enabledLevel.assign moduleName level
      loggers := factory.loggers.map fun logger ↦
        if logger.moduleName = moduleName then { logger with currentLevel := level } else logger }

/-- `setSeverityLevel`: the static function calls itself, and not the member function. It gives `none`
where more calls are nested than `depth` allows. -/
def setSeverityLevel (moduleName : List Char) (level : LogLevel) :
    ℕ → LoggerFactory → Option LoggerFactory
  | 0, _ => none
  | depth + 1, factory => setSeverityLevel moduleName level depth factory

/-! ## Configurations -/

def parseLevel (levelStr : List Char) : Except InvalidArgument LogLevel :=
  if levelStr = "FATAL".toList then .ok .fatal
  else if levelStr = "NONE".toList then .ok .none
  else if levelStr = "ERROR".toList then .ok .error
  else if levelStr = "WARN".toList then .ok .warn
  else if levelStr = "INFO".toList then .ok .info
  else if levelStr = "DEBUG".toList then .ok .debug
  else if levelStr = "TRACE".toList then .ok .trace
  else if levelStr = "ALL".toList then .ok .all
  else .error ("Unrecognized log level '".toList ++ levelStr ++ ['\''])

/-- What `std::getline` reads up to each `:`, behind what it has read already. There is no line
behind a final `:`. -/
def configModules (read : List Char) : List Char → List (List Char)
  | [] => if read.isEmpty then [] else [read]
  | next :: rest =>
      if next = ':' then read :: configModules [] rest else configModules (read ++ [next]) rest

def readSetting (configModule : List Char) : Except InvalidArgument (List Char × LogLevel) :=
  match configModule.dropWhile (· ≠ '=') with
  | [] => .error "wrong log configuration".toList
  | _ :: levelStr => do return (configModule.takeWhile (· ≠ '='), ← parseLevel levelStr)

/-- The loop of `setSeverityLevelsImpl`; the settings in front of one that throws are made. -/
def applyConfig (factory : LoggerFactory) :
    List (List Char) → LoggerFactory × Option InvalidArgument
  | [] => (factory, none)
  | configModule :: rest =>
      match readSetting configModule with
      | .error what => (factory, some what)
      | .ok (moduleName, level) => applyConfig (factory.setSeverityLevelImpl moduleName level) rest

def setSeverityLevels (config : List Char) : LoggerFactory × Option InvalidArgument :=
  applyConfig factory (configModules [] config)

/-- The constructor, with the value of `NDN_CXX_LOG` in the environment -/
def initial (environ : Option (List Char)) : LoggerFactory × Option InvalidArgument :=
  match environ with
  | none => (⟨.empty, []⟩, none)
  | some config => setSeverityLevels ⟨.empty, []⟩ config

/-- The settings of a configuration, if it is well formed. -/
def settingsOf (config : List Char) : Except InvalidArgument (List (List Char × LogLevel)) :=
  (configModules [] config).mapM readSetting

/-! ## Calls -/

inductive Call
  | addLogger (moduleName : List Char)
  | setSeverityLevel (moduleName : List Char) (level : LogLevel)
  | setSeverityLevels (config : List Char)

/-- One call; `none` if it does not return at this depth of calls, or throws. -/
def step (depth : ℕ) (factory : LoggerFactory) : Call → Option LoggerFactory
  | .addLogger moduleName => some (factory.addLogger moduleName)
  | .setSeverityLevel moduleName level => setSeverityLevel moduleName level depth factory
  | .setSeverityLevels config =>
      match factory.setSeverityLevels config with
      | (next, none) => some next
      | (_, some _) => none

def Call.settings : Call → List (List Char × LogLevel)
  | .addLogger _ => []
  | .setSeverityLevel moduleName level => [(moduleName, level)]
  | .setSeverityLevels config => ((settingsOf config).toOption).getD []

def Call.IsWellFormed : Call → Prop
  | .setSeverityLevels config => (settingsOf config).isOk = true
  | _ => True

def Call.registered : Call → Option (List Char)
  | .addLogger moduleName => some moduleName
  | _ => none

instance : (call : Call) → Decidable call.IsWellFormed
  | .setSeverityLevels config => inferInstanceAs (Decidable ((settingsOf config).isOk = true))
  | .addLogger _ | .setSeverityLevel .. => inferInstanceAs (Decidable True)

def Call.isSetSeverityLevel : Call → Bool
  | .setSeverityLevel .. => true
  | _ => false

/-! ## The level that settings give a module -/

/-- The settings behind the last one for all modules, the latest first -/
def sinceAllModules (settings : List (List Char × LogLevel)) : List (List Char × LogLevel) :=
  settings.reverse.takeWhile fun setting ↦ setting.1 ≠ allModules

/-- The level of the last setting for the module behind the last one for all modules, or else the
level of that one, or else `INFO` -/
def effectiveLevel (settings : List (List Char × LogLevel)) (moduleName : List Char) : LogLevel :=
  match (sinceAllModules settings).find? fun setting ↦ setting.1 = moduleName with
  | some setting => setting.2
  | none =>
      match settings.reverse.find? fun setting ↦ setting.1 = allModules with
      | some setting => setting.2
      | none => .info

/-- All registered loggers have the level that the settings give their modules. -/
def HasEffectiveLevels (settings : List (List Char × LogLevel)) : Prop :=
  ∀ logger ∈ factory.loggers, logger.currentLevel = effectiveLevel settings logger.moduleName

/-! ## One setting -/

/-- What is remembered for the loggers to come is what the settings say. -/
structure Remembers (factory : LoggerFactory) (settings : List (List Char × LogLevel)) : Prop where
  ofModule : ∀ moduleName, moduleName ≠ allModules → factory.enabledLevel.find? moduleName =
    ((sinceAllModules settings).find? fun setting ↦ setting.1 = moduleName).map Prod.snd
  ofAll : factory.enabledLevel.find? allModules =
    (settings.reverse.find? fun setting ↦ setting.1 = allModules).map Prod.snd

section Setting

variable {factory} {settings : List (List Char × LogLevel)} {moduleName : List Char}
  {level : LogLevel}

theorem sinceAllModules_append (settings : List (List Char × LogLevel)) (moduleName : List Char)
    (level : LogLevel) :
    sinceAllModules (settings ++ [(moduleName, level)]) =
      if moduleName = allModules then [] else (moduleName, level) :: sinceAllModules settings := by
  rw [sinceAllModules, List.reverse_append, List.reverse_singleton, List.singleton_append,
    List.takeWhile_cons]
  by_cases hall : moduleName = allModules <;> simp [hall, sinceAllModules]

theorem find?_reverse_append (settings : List (List Char × LogLevel)) (moduleName : List Char)
    (level : LogLevel) :
    ((settings ++ [(moduleName, level)]).reverse.find? fun setting ↦ setting.1 = allModules) =
      if moduleName = allModules then some (moduleName, level)
      else settings.reverse.find? fun setting ↦ setting.1 = allModules := by
  rw [List.reverse_append, List.reverse_singleton, List.singleton_append, List.find?_cons]
  by_cases hall : moduleName = allModules <;> simp [hall]

/-- A setting counts for its own module, or for every one. -/
theorem effectiveLevel_append (settings : List (List Char × LogLevel)) (moduleName : List Char)
    (level : LogLevel) (other : List Char) :
    effectiveLevel (settings ++ [(moduleName, level)]) other =
      if moduleName = allModules ∨ moduleName = other then level
      else effectiveLevel settings other := by
  rw [effectiveLevel, sinceAllModules_append, find?_reverse_append]
  by_cases hall : moduleName = allModules
  · simp [hall]
  · rw [if_neg hall, if_neg hall, List.find?_cons]
    by_cases hother : moduleName = other
    · simp [hother]
    · simp [hall, hother, effectiveLevel]

/-- The settings since the last one for all modules are for single modules. -/
theorem find?_sinceAllModules :
    ((sinceAllModules settings).find? fun setting ↦ setting.1 = allModules) = none := by
  apply List.find?_eq_none.mpr
  intro setting hmem
  simpa using List.mem_takeWhile_imp hmem

/-- A new logger gets the level that the settings so far give its module. -/
theorem Remembers.levelOf_eq (hremembers : factory.Remembers settings) (moduleName : List Char) :
    factory.levelOf moduleName = effectiveLevel settings moduleName := by
  rw [levelOf, effectiveLevel, hremembers.ofAll]
  by_cases hall : moduleName = allModules
  · subst hall
    rw [hremembers.ofAll, find?_sinceAllModules]
    cases settings.reverse.find? fun setting ↦ setting.1 = allModules <;> rfl
  · rw [hremembers.ofModule moduleName hall]
    cases (sinceAllModules settings).find? fun setting ↦ setting.1 = moduleName with
    | some setting => rfl
    | none => cases settings.reverse.find? fun setting ↦ setting.1 = allModules <;> rfl

theorem Remembers.setSeverityLevelImpl (hremembers : factory.Remembers settings)
    (moduleName : List Char) (level : LogLevel) :
    (factory.setSeverityLevelImpl moduleName level).Remembers
      (settings ++ [(moduleName, level)]) := by
  constructor
  · intro other hother
    rw [LoggerFactory.setSeverityLevelImpl, sinceAllModules_append]
    split_ifs with hall
    · rw [UnorderedMap.find?_assign, if_neg hother, UnorderedMap.find?_empty]
      rfl
    · rw [UnorderedMap.find?_assign, List.find?_cons]
      by_cases hsame : other = moduleName
      · simp [hsame]
      · rw [if_neg hsame, hremembers.ofModule other hother]
        simp [Ne.symm hsame]
  · rw [LoggerFactory.setSeverityLevelImpl, find?_reverse_append]
    split_ifs with hall
    · rw [UnorderedMap.find?_assign, if_pos rfl]
      rfl
    · rw [UnorderedMap.find?_assign, if_neg (Ne.symm hall)]
      exact hremembers.ofAll

/-- The registered loggers follow a setting as those to come will. -/
theorem HasEffectiveLevels.setSeverityLevelImpl (hlevels : factory.HasEffectiveLevels settings)
    (moduleName : List Char) (level : LogLevel) :
    (factory.setSeverityLevelImpl moduleName level).HasEffectiveLevels
      (settings ++ [(moduleName, level)]) := by
  intro logger hmem
  rw [effectiveLevel_append]
  rw [LoggerFactory.setSeverityLevelImpl] at hmem
  split_ifs at hmem with hall
  · obtain ⟨old, -, rfl⟩ := List.mem_map.mp hmem
    rw [if_pos (Or.inl hall)]
  · obtain ⟨old, hold, rfl⟩ := List.mem_map.mp hmem
    by_cases hmodule : old.moduleName = moduleName
    · rw [if_pos hmodule, if_pos (Or.inr hmodule.symm)]
    · have hother : ¬ (moduleName = allModules ∨ moduleName = old.moduleName) := by
        rintro (hsame | hsame)
        · exact hall hsame
        · exact hmodule hsame.symm
      rw [if_neg hmodule, if_neg hother]
      exact hlevels old hold

theorem map_moduleName_setSeverityLevelImpl (factory : LoggerFactory) (moduleName : List Char)
    (level : LogLevel) :
    (factory.setSeverityLevelImpl moduleName level).loggers.map Logger.moduleName =
      factory.loggers.map Logger.moduleName := by
  rw [LoggerFactory.setSeverityLevelImpl]
  split_ifs
  · rw [List.map_map]
    rfl
  · rw [List.map_map]
    apply List.map_congr_left
    intro logger _
    rw [Function.comp_apply]
    split_ifs <;> rfl

end Setting

/-! ## Runs -/

/-- After these registrations and settings, in any order. -/
structure Reflects (factory : LoggerFactory) (registered : List (List Char))
    (settings : List (List Char × LogLevel)) : Prop where
  remembers : factory.Remembers settings
  levels : factory.HasEffectiveLevels settings
  registered : factory.loggers.map Logger.moduleName = registered

namespace Reflects

variable {factory} {registered : List (List Char)} {settings : List (List Char × LogLevel)}

theorem empty : (⟨.empty, []⟩ : LoggerFactory).Reflects [] [] where
  remembers := ⟨fun _ _ ↦ rfl, rfl⟩
  levels := by simp [HasEffectiveLevels]
  registered := rfl

section

variable (hreflects : factory.Reflects registered settings)
include hreflects

theorem setSeverityLevelImpl (moduleName : List Char) (level : LogLevel) :
    (factory.setSeverityLevelImpl moduleName level).Reflects registered
      (settings ++ [(moduleName, level)]) where
  remembers := hreflects.remembers.setSeverityLevelImpl moduleName level
  levels := hreflects.levels.setSeverityLevelImpl moduleName level
  registered := (map_moduleName_setSeverityLevelImpl _ _ _).trans hreflects.registered

theorem addLogger (moduleName : List Char) :
    (factory.addLogger moduleName).Reflects (registered ++ [moduleName]) settings where
  remembers := ⟨hreflects.remembers.ofModule, hreflects.remembers.ofAll⟩
  levels := by
    intro logger hmem
    rcases List.mem_append.mp hmem with hold | hnew
    · exact hreflects.levels logger hold
    · rw [List.mem_singleton.mp hnew]
      exact hreflects.remembers.levelOf_eq moduleName
  registered := by
    rw [LoggerFactory.addLogger, List.map_append, hreflects.registered]
    rfl

/-- A well-formed configuration is a sequence of settings. -/
theorem applyConfig {configModules : List (List Char)} {configured : List (List Char × LogLevel)}
    (hconfigured : configModules.mapM readSetting = .ok configured) :
    ∃ next, LoggerFactory.applyConfig factory configModules = (next, none) ∧
      next.Reflects registered (settings ++ configured) := by
  induction configModules generalizing factory settings configured with
  | nil =>
    obtain rfl : [] = configured := by simpa [pure, Except.pure] using hconfigured
    exact ⟨factory, rfl, by simpa using hreflects⟩
  | cons configModule rest ih =>
    rw [List.mapM_cons] at hconfigured
    cases hfirst : readSetting configModule with
    | error what =>
      rw [hfirst] at hconfigured
      cases hconfigured
    | ok setting =>
      cases hrest : rest.mapM readSetting with
      | error what =>
        rw [hfirst, hrest] at hconfigured
        cases hconfigured
      | ok others =>
        rw [hfirst, hrest] at hconfigured
        obtain rfl : setting :: others = configured := Except.ok.inj hconfigured
        obtain ⟨moduleName, level⟩ := setting
        obtain ⟨next, hnext, hreflected⟩ :=
          ih (hreflects.setSeverityLevelImpl moduleName level) hrest
        refine ⟨next, ?_, by simpa using hreflected⟩
        rw [LoggerFactory.applyConfig, hfirst]
        exact hnext

/-- Every call but the one that calls itself returns. -/
theorem step (depth : ℕ) {call : Call} (hwellFormed : call.IsWellFormed)
    (hreturns : call.isSetSeverityLevel = false) :
    ∃ next, factory.step depth call = some next ∧
      next.Reflects (registered ++ call.registered.toList) (settings ++ call.settings) := by
  cases call with
  | addLogger moduleName =>
    refine ⟨_, rfl, ?_⟩
    simpa [Call.settings, Call.registered] using hreflects.addLogger moduleName
  | setSeverityLevel moduleName level => cases hreturns
  | setSeverityLevels config =>
    cases hsettings : settingsOf config with
    | error what => simp [Call.IsWellFormed, hsettings, Except.isOk, Except.toBool] at hwellFormed
    | ok configured =>
      obtain ⟨next, hnext, hreflected⟩ := hreflects.applyConfig hsettings
      refine ⟨next, ?_, ?_⟩
      · rw [LoggerFactory.step, setSeverityLevels, hnext]
      · simpa [Call.settings, Call.registered, hsettings, Except.toOption] using hreflected

end

end Reflects

/-- The static function never returns. -/
theorem setSeverityLevel_eq_none (moduleName : List Char) (level : LogLevel) (depth : ℕ)
    (factory : LoggerFactory) : setSeverityLevel moduleName level depth factory = none := by
  induction depth with
  | zero => rfl
  | succ depth ih => exact ih

theorem run_eq_none (factory : LoggerFactory) {depth : ℕ} {calls : List Call}
    (hcall : ∃ call ∈ calls, call.isSetSeverityLevel = true) :
    Run.run (step depth) factory calls = none := by
  induction calls generalizing factory with
  | nil => simp at hcall
  | cons call calls ih =>
    obtain ⟨recursive, hmem, hrecursive⟩ := hcall
    rw [Run.run, Option.bind_eq_none_iff]
    intro next hnext
    rcases List.mem_cons.mp hmem with rfl | hlater
    · cases recursive with
      | addLogger | setSeverityLevels => cases hrecursive
      | setSeverityLevel moduleName level =>
        rw [step, setSeverityLevel_eq_none] at hnext
        cases hnext
    · exact ih next ⟨recursive, hlater, hrecursive⟩

theorem Reflects.run {factory : LoggerFactory} {registered : List (List Char)}
    {settings : List (List Char × LogLevel)} (hreflects : factory.Reflects registered settings)
    (depth : ℕ) {calls : List Call} (hwellFormed : ∀ call ∈ calls, call.IsWellFormed)
    (hreturns : ∀ call ∈ calls, call.isSetSeverityLevel = false) :
    ∃ finish, Run.run (LoggerFactory.step depth) factory calls = some finish ∧
      finish.Reflects (registered ++ calls.filterMap Call.registered)
        (settings ++ calls.flatMap Call.settings) := by
  induction calls generalizing factory registered settings with
  | nil => exact ⟨factory, rfl, by simpa using hreflects⟩
  | cons call calls ih =>
    rw [List.forall_mem_cons] at hwellFormed hreturns
    obtain ⟨next, hstep, hnext⟩ := hreflects.step depth hwellFormed.1 hreturns.1
    obtain ⟨finish, hrun, hfinish⟩ := ih hnext hwellFormed.2 hreturns.2
    refine ⟨finish, Run.run_cons_eq_some.mpr ⟨next, hstep, hrun⟩, ?_⟩
    rw [List.flatMap_cons, List.filterMap_cons]
    cases hregistered : call.registered with
    | none => simpa [hregistered] using hfinish
    | some moduleName => simpa [hregistered] using hfinish

/-- The calls return, and every logger that was registered by one of them has the level that the
settings give its module, those in the environment being the first. -/
def SetsLevels (environ : Option (List Char)) (calls : List Call) : Prop :=
  ∃ depth finish, Run.run (step depth) (initial environ).1 calls = some finish ∧
    finish.loggers.map Logger.moduleName = calls.filterMap Call.registered ∧
    finish.HasEffectiveLevels
      (((environ.map fun config ↦ ((settingsOf config).toOption).getD []).getD []) ++
        calls.flatMap Call.settings)

/-- With well-formed configurations the calls set the levels as they should, whatever the order of
registrations and settings, exactly when `setSeverityLevel` is not among them. -/
theorem setsLevels_iff {environ : Option (List Char)} {calls : List Call}
    (henviron : ∀ config ∈ environ, (settingsOf config).isOk = true)
    (hwellFormed : ∀ call ∈ calls, call.IsWellFormed) :
    SetsLevels environ calls ↔ ∀ call ∈ calls, call.isSetSeverityLevel = false := by
  constructor
  · rintro ⟨depth, finish, hrun, -⟩
    by_contra hcall
    push Not at hcall
    rw [run_eq_none _ (by simpa using hcall)] at hrun
    cases hrun
  · intro hreturns
    have hinitial : (initial environ).1.Reflects []
        ((environ.map fun config ↦ ((settingsOf config).toOption).getD []).getD []) := by
      cases environ with
      | none => exact Reflects.empty
      | some config =>
        cases hsettings : settingsOf config with
        | error what =>
          have hok := henviron config rfl
          simp [hsettings, Except.isOk, Except.toBool] at hok
        | ok configured =>
          obtain ⟨next, hnext, hreflected⟩ := Reflects.empty.applyConfig hsettings
          rw [initial, setSeverityLevels, hnext]
          simpa [hsettings, Except.toOption] using hreflected
    obtain ⟨finish, hrun, hfinish⟩ := hinitial.run 0 hwellFormed hreturns
    exact ⟨0, finish, hrun, by simpa using hfinish.registered, hfinish.levels⟩

/-- A logger registered before, and one registered after, a configuration that sets its module and
then all modules. -/
theorem setsLevels_iff_config :
    SetsLevels none [.addLogger ['A'], .setSeverityLevels "A=DEBUG:*=WARN".toList,
      .addLogger ['A']] :=
  (setsLevels_iff (by simp) (by decide)).mpr (by decide)

/-- A call for a single module does not return. -/
theorem not_setsLevels_single : ¬ SetsLevels none [.setSeverityLevel ['A'] .debug] := by
  rintro ⟨depth, finish, hrun, -⟩
  rw [run_eq_none _ ⟨_, List.mem_singleton_self _, rfl⟩] at hrun
  cases hrun

end LoggerFactory

end NdnCxx
