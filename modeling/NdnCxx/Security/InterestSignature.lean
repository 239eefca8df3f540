import NdnCxx.Name.StoredName
import NdnCxx.Security.IdentityCertificate

/-!
# Signatures of Interests

A signed Interest carries its SignatureInfo and its SignatureValue inside the last two components of
its name. `Validator::verifySignature` takes them out and catches `Block::Error`, which is what a
component without a value throws. A component that does not hold exactly one TLV throws `tlv::Error`,
as does a SignatureInfo that cannot be decoded, and these reach the caller. The two arguments of the
constructor of `Signature` are evaluated in either order.
-/

namespace NdnCxx

open Validation (KeyType PublicKeyInfo)

/-- Whether a `catch (Block::Error&)` handler catches the exception. -/
def Error.isBlockError (error : Error) : Bool := error.kind == .block || error.kind == .component

/-- Verification by the library, of a message and a signature under a key; `none` stands for a
`CryptoPP::Exception`. -/
structure SignatureLibrary where
  verifyRsa : (key message signature : Bytes) → Option Bool
  verifyEcdsa : (key message signature : Bytes) → Option Bool

namespace InterestSignature

/-- The arguments of `Signature::Signature(const Block&, const Block&)` -/
def arguments (lastFirst : Bool) (infoComponent valueComponent : Block) :
    Except Error (Block × Block) :=
  if lastFirst then do
    let value ← Block.blockFromValue valueComponent.value
    let info ← Block.blockFromValue infoComponent.value
    return (info, value)
  else do
    let info ← Block.blockFromValue infoComponent.value
    let value ← Block.blockFromValue valueComponent.value
    return (info, value)

/-- `Signature::Signature(const Block&, const Block&)`; the type of the second block is not looked
at. -/
def signature (lastFirst : Bool) (infoComponent valueComponent : Block) :
    Except Error (SignatureInfo × Block) := do
  let (info, value) ← arguments lastFirst infoComponent valueComponent
  return (← SignatureInfo.wireDecode info, value)

def catchBlockError : Except Error Bool → Except Error Bool
  | .ok result => .ok result
  | .error error => if error.isBlockError then .ok false else .error error

section

variable (library : SignatureLibrary)

/-- `Validator::verifySignature(const uint8_t*, const size_t, const Signature&, const PublicKey&)`;
a key of neither algorithm is `none`. -/
def verifyBuffer (buffer : Bytes) (info : SignatureInfo) (value : Block) :
    Option PublicKeyInfo → Bool
  | none => false
  | some key =>
      if info.type = Tlv.signatureSha256WithRsa then
        if key.keyType ≠ KeyType.rsa then false
        else (library.verifyRsa key.key buffer value.value).getD false
      else if info.type = Tlv.signatureSha256WithEcdsa then
        if key.keyType ≠ KeyType.ecdsa then false
        else (library.verifyEcdsa key.key buffer value.value).getD false
      else false

/-- The bytes that are verified: the value of the name, less the size of the last component. -/
def signedRange (name : StoredName) (valueComponent : Block) : Bytes :=
  name.encoded.value.take (name.encoded.value.length - valueComponent.size)

def verifySignature (lastFirst : Bool) (name : StoredName) (key : Option PublicKeyInfo) :
    Except Error Bool :=
  match name.encodedElements.reverse with
  | valueComponent :: infoComponent :: _ =>
      catchBlockError do
        let (info, value) ← signature lastFirst infoComponent valueComponent
        if !info.hasKeyLocator then return false
        else return verifyBuffer library (signedRange name valueComponent) info value key
  | _ => .ok false

/-! ## What a verified Interest shows -/

/-- A name taken apart: the components in front of the last two, and what these two decode to. -/
structure Parts where
  before : List Block
  infoComponent : Block
  valueComponent : Block
  info : SignatureInfo
  value : Block

/-- The last two components decode to a SignatureInfo with a key locator and to one more block. -/
structure Parts.IsOf (parts : Parts) (name : StoredName) : Prop where
  elements : name.encodedElements = parts.before ++ [parts.infoComponent, parts.valueComponent]
  info : ∃ block, Block.blockFromValue parts.infoComponent.value = .ok block ∧
    SignatureInfo.wireDecode block = .ok parts.info
  keyLocator : parts.info.hasKeyLocator = true
  value : Block.blockFromValue parts.valueComponent.value = .ok parts.value

/-- There is one way to take a name apart. -/
theorem Parts.IsOf.unique {name : StoredName} {parts parts' : Parts} (hparts : parts.IsOf name)
    (hparts' : parts'.IsOf name) : parts = parts' := by
  obtain ⟨before, infoComponent, valueComponent, info, value⟩ := parts
  obtain ⟨before', infoComponent', valueComponent', info', value'⟩ := parts'
  have helements := hparts.elements.symm.trans hparts'.elements
  obtain ⟨hbefore, hlast⟩ := List.append_inj' helements rfl
  simp only [List.cons.injEq, and_true] at hlast
  dsimp only at hbefore hlast
  obtain ⟨rfl, rfl⟩ := hlast
  obtain ⟨block, hblock, hinfo⟩ := hparts.info
  obtain ⟨block', hblock', hinfo'⟩ := hparts'.info
  obtain rfl : block = block' := Except.ok.inj (hblock.symm.trans hblock')
  obtain rfl : info = info' := Except.ok.inj (hinfo.symm.trans hinfo')
  obtain rfl : value = value' := Except.ok.inj (hparts.value.symm.trans hparts'.value)
  rw [hbefore]

def Parts.signedBytes (parts : Parts) : Bytes :=
  (parts.before ++ [parts.infoComponent]).flatMap Block.wire

/-- The block behind the SignatureInfo is a SignatureValue, and the signature verifies over exactly
the components before the last one. -/
def Attests (name : StoredName) (key : Option PublicKeyInfo) : Prop :=
  ∃ parts : Parts, parts.IsOf name ∧ parts.value.type = Tlv.signatureValue ∧
    verifyBuffer library parts.signedBytes parts.info parts.value key = true

/-- A result is returned, and `true` for names that attest to the key only. -/
def VerifiesSoundly (lastFirst : Bool) (name : StoredName) (key : Option PublicKeyInfo) : Prop :=
  ∃ result, verifySignature library lastFirst name key = .ok result ∧
    (result = true → Attests library name key)

def HoldsTlv (component : Block) : Prop :=
  ∃ block, Block.blockFromValue component.value = .ok block

/-- The component read first has no value, or it holds one TLV and the other one has no value, or
both hold one TLV and the first of the two in the name is a SignatureInfo. -/
def IsReadable (lastFirst : Bool) (infoComponent valueComponent : Block) : Prop :=
  let first := if lastFirst then valueComponent else infoComponent
  let second := if lastFirst then infoComponent else valueComponent
  first.value = [] ∨ HoldsTlv first ∧ (second.value = [] ∨ HoldsTlv second ∧
    ∃ block info, Block.blockFromValue infoComponent.value = .ok block ∧
      SignatureInfo.wireDecode block = .ok info)

/-- The last two components, if there are as many, are read without an exception other than
`Block::Error`; and where the signature verifies over the range that is taken, the last TLV is a
SignatureValue and the last component has a size that 32 bits count, unless the signature verifies
over the right bytes as well. -/
structure IsHandled (lastFirst : Bool) (name : StoredName) (key : Option PublicKeyInfo) : Prop where
  readable : ∀ before infoComponent valueComponent,
    name.encodedElements = before ++ [infoComponent, valueComponent] →
      IsReadable lastFirst infoComponent valueComponent
  typed : ∀ parts : Parts, parts.IsOf name →
    verifyBuffer library (signedRange name parts.valueComponent) parts.info parts.value key = true →
      parts.value.type = Tlv.signatureValue ∧ (parts.valueComponent.wire.length < 2 ^ 32 ∨
        verifyBuffer library parts.signedBytes parts.info parts.value key = true)

end

/-! ## Exceptions of the decoders -/

variable {error : Error} {value : Bytes} {Value : Type}

theorem isBlockError_of_kind (hkind : error.kind = .tlv) : error.isBlockError = false := by
  simp [Error.isBlockError, hkind]

/-- An empty value throws `Block::Error`, and any other that is not one TLV throws `tlv::Error`. -/
theorem isBlockError_blockFromValue (herror : Block.blockFromValue value = .error error) :
    error.isBlockError = true ↔ value = [] := by
  by_cases hne : value = []
  · subst hne
    cases herror
    exact iff_of_true rfl rfl
  · have hkind : error.isBlockError = false :=
      isBlockError_of_kind (Block.blockFromValue_throwsTlv hne error herror)
    rw [hkind]
    exact iff_of_false Bool.false_ne_true hne

theorem keyLocator_throwsNoBlockError (wire : Block) :
    ThrowsOnly (fun error ↦ error.isBlockError = false) (KeyLocator.wireDecode wire) := by
  have hparse (value : Bytes) :
      ThrowsOnly (fun error ↦ error.isBlockError = false) (Block.parse value) :=
    (Block.parse_throwsTlv value).mono fun _ ↦ isBlockError_of_kind
  have hname (block : Block) :
      ThrowsOnly (fun error ↦ error.isBlockError = false) (Name.wireDecode block) :=
    .ite (.throw rfl) (.bind (hparse _) fun _ ↦ .ok _)
  refine .ite (.throw rfl) (.bind (hparse _) fun elements ↦ ?_)
  cases elements with
  | nil => exact .ok _
  | cons first rest =>
    exact .ite (.bind (hname first) fun _ ↦ .ok _) (.ite (.ok _) (.ok _))

theorem signatureInfo_throwsNoBlockError (wire : Block) :
    ThrowsOnly (fun error ↦ error.isBlockError = false) (SignatureInfo.wireDecode wire) := by
  have hparse : ThrowsOnly (fun error ↦ error.isBlockError = false) (Block.parse wire.value) :=
    (Block.parse_throwsTlv wire.value).mono fun _ ↦ isBlockError_of_kind
  refine .bind hparse fun elements ↦ .ite (.throw rfl) ?_
  cases elements with
  | nil => exact .throw rfl
  | cons first rest =>
    have htype := (Tlv.readNonNegativeInteger_throwsTlv first.value.length first.value).mono
      fun _ ↦ isBlockError_of_kind
    refine .ite (.throw rfl) (.bind htype fun _ ↦ ?_)
    cases rest with
    | nil => exact .ok _
    | cons second others =>
      exact .ite (.bind (keyLocator_throwsNoBlockError second) fun _ ↦ .ok _) (.ok _)

/-! ## Reading the last two components -/

variable {library : SignatureLibrary} {lastFirst : Bool} {name : StoredName}
  {key : Option PublicKeyInfo} {infoComponent valueComponent : Block}

theorem arguments_eq_ok_iff {info value : Block} :
    arguments lastFirst infoComponent valueComponent = .ok (info, value) ↔
      Block.blockFromValue infoComponent.value = .ok info ∧
        Block.blockFromValue valueComponent.value = .ok value := by
  unfold arguments
  cases hinfo : Block.blockFromValue infoComponent.value <;>
    cases hvalue : Block.blockFromValue valueComponent.value <;>
    cases lastFirst <;> simp [bind, Except.bind, pure, Except.pure]

theorem signature_eq_ok_iff {info : SignatureInfo} {value : Block} :
    signature lastFirst infoComponent valueComponent = .ok (info, value) ↔
      (∃ block, Block.blockFromValue infoComponent.value = .ok block ∧
        SignatureInfo.wireDecode block = .ok info) ∧
      Block.blockFromValue valueComponent.value = .ok value := by
  unfold signature
  constructor
  · intro hsignature
    obtain ⟨⟨block, last⟩, harguments, hnext⟩ := bind_eq_ok_iff.mp hsignature
    obtain ⟨decoded, hdecode, hreturn⟩ := bind_eq_ok_iff.mp hnext
    cases hreturn
    obtain ⟨hinfo, hvalue⟩ := arguments_eq_ok_iff.mp harguments
    exact ⟨⟨block, hinfo, hdecode⟩, hvalue⟩
  · intro hparts
    obtain ⟨⟨block, hinfo, hdecode⟩, hvalue⟩ := hparts
    apply bind_eq_ok_iff.mpr
    refine ⟨(block, value), arguments_eq_ok_iff.mpr ⟨hinfo, hvalue⟩, ?_⟩
    exact bind_eq_ok_iff.mpr ⟨info, hdecode, rfl⟩

/-- The exception, if any, is caught or there is none. -/
def IsCaught {Value : Type} (result : Except Error Value) : Prop :=
  ∀ error, result = .error error → error.isBlockError = true

theorem isCaught_ok (value : Value) : IsCaught (.ok value) := by
  intro error hthrow
  cases hthrow

/-- A read, and what follows it. -/
theorem isCaught_bind_iff {Value' : Type} {result : Except Error Value}
    {next : Value → Except Error Value'} :
    IsCaught (result >>= next) ↔
      (∃ error, result = .error error ∧ error.isBlockError = true) ∨
        ∃ value, result = .ok value ∧ IsCaught (next value) := by
  cases result with
  | error error =>
    constructor
    · intro hcaught
      exact .inl ⟨error, rfl, hcaught error rfl⟩
    · rintro (⟨error', hthrow, hblock⟩ | ⟨value, hvalue, -⟩)
      · intro error'' hthrow'
        cases hthrow
        cases hthrow'
        exact hblock
      · cases hvalue
  | ok value => simp [bind, Except.bind]

theorem isBlockError_blockFromValue_iff :
    (∃ error, Block.blockFromValue value = .error error ∧ error.isBlockError = true) ↔
      value = [] := by
  constructor
  · intro hthrow
    obtain ⟨error, herror, hblock⟩ := hthrow
    exact (isBlockError_blockFromValue herror).mp hblock
  · intro hnil
    rw [hnil]
    exact ⟨_, rfl, rfl⟩

/-- Two reads, one after the other, in front of the decoding. -/
theorem isCaught_reads_iff {first second : Block} {next : Block → Block → Except Error Value} :
    IsCaught (do
      let one ← Block.blockFromValue first.value
      let two ← Block.blockFromValue second.value
      next one two) ↔
      first.value = [] ∨ ∃ one, Block.blockFromValue first.value = .ok one ∧
        (second.value = [] ∨ ∃ two, Block.blockFromValue second.value = .ok two ∧
          IsCaught (next one two)) := by
  rw [isCaught_bind_iff, isBlockError_blockFromValue_iff]
  simp only [isCaught_bind_iff, isBlockError_blockFromValue_iff]

/-- An exception of `SignatureInfo::wireDecode` is never caught. -/
theorem isCaught_decode_iff {info value : Block} :
    IsCaught (do return (← SignatureInfo.wireDecode info, value)) ↔
      ∃ decoded, SignatureInfo.wireDecode info = .ok decoded := by
  rw [isCaught_bind_iff]
  constructor
  · rintro (⟨error, herror, hblock⟩ | ⟨decoded, hdecoded, -⟩)
    · rw [signatureInfo_throwsNoBlockError info error herror] at hblock
      cases hblock
    · exact ⟨decoded, hdecoded⟩
  · intro hdecoded
    obtain ⟨decoded, hdecoded⟩ := hdecoded
    exact .inr ⟨decoded, hdecoded, isCaught_ok _⟩

theorem isCaught_signature_iff :
    IsCaught (signature lastFirst infoComponent valueComponent) ↔
      IsReadable lastFirst infoComponent valueComponent := by
  cases lastFirst with
  | true =>
    have hreads : signature true infoComponent valueComponent = (do
        let value ← Block.blockFromValue valueComponent.value
        let info ← Block.blockFromValue infoComponent.value
        return (← SignatureInfo.wireDecode info, value)) := by
      unfold signature arguments
      simp only [if_true, bind_assoc, pure_bind]
    rw [hreads, isCaught_reads_iff]
    simp only [isCaught_decode_iff, IsReadable, HoldsTlv, if_true]
    refine or_congr_right ?_
    rw [← exists_and_right]
    refine exists_congr fun value ↦ and_congr_right fun _ ↦ or_congr_right ?_
    constructor
    · intro hdecoded
      obtain ⟨info, hinfo, decoded, hdecoded⟩ := hdecoded
      exact ⟨⟨info, hinfo⟩, info, decoded, hinfo, hdecoded⟩
    · intro hdecoded
      obtain ⟨-, info, decoded, hinfo, hdecoded⟩ := hdecoded
      exact ⟨info, hinfo, decoded, hdecoded⟩
  | false =>
    have hreads : signature false infoComponent valueComponent = (do
        let info ← Block.blockFromValue infoComponent.value
        let value ← Block.blockFromValue valueComponent.value
        return (← SignatureInfo.wireDecode info, value)) := by
      unfold signature arguments
      simp only [Bool.false_eq_true, if_false, bind_assoc, pure_bind]
    rw [hreads, isCaught_reads_iff]
    simp only [isCaught_decode_iff, IsReadable, HoldsTlv, Bool.false_eq_true, if_false]
    refine or_congr_right ?_
    constructor
    · intro hread
      obtain ⟨info, hinfo, hrest⟩ := hread
      refine ⟨⟨info, hinfo⟩, hrest.imp_right fun hvalue ↦ ?_⟩
      obtain ⟨value, hvalue, decoded, hdecoded⟩ := hvalue
      exact ⟨⟨value, hvalue⟩, info, decoded, hinfo, hdecoded⟩
    · intro hread
      obtain ⟨⟨info, hinfo⟩, hrest⟩ := hread
      refine ⟨info, hinfo, hrest.imp_right fun hvalue ↦ ?_⟩
      obtain ⟨⟨value, hvalue⟩, block, decoded, hblock, hdecoded⟩ := hvalue
      obtain rfl : block = info := Except.ok.inj (hblock.symm.trans hinfo)
      exact ⟨value, hvalue, decoded, hdecoded⟩

/-! ## The verification -/

theorem verifySignature_eq {before : List Block}
    (helements : name.encodedElements = before ++ [infoComponent, valueComponent]) :
    verifySignature library lastFirst name key = catchBlockError do
      let (info, value) ← signature lastFirst infoComponent valueComponent
      if !info.hasKeyLocator then return false
      else return verifyBuffer library (signedRange name valueComponent) info value key := by
  unfold verifySignature
  rw [helements, List.reverse_append]
  rfl

theorem verifySignature_eq_false (hlength : name.encodedElements.length < 2) :
    verifySignature library lastFirst name key = .ok false := by
  unfold verifySignature
  cases hreverse : name.encodedElements.reverse with
  | nil => rfl
  | cons last rest =>
    cases rest with
    | nil => rfl
    | cons secondLast rest =>
      rw [← List.length_reverse, hreverse, List.length_cons, List.length_cons] at hlength
      omega

/-- The last two of a list of elements. -/
theorem exists_elements (hlength : ¬ name.encodedElements.length < 2) :
    ∃ before infoComponent valueComponent,
      name.encodedElements = before ++ [infoComponent, valueComponent] := by
  cases hreverse : name.encodedElements.reverse with
  | nil =>
    rw [← List.length_reverse, hreverse] at hlength
    simp at hlength
  | cons last rest =>
    cases rest with
    | nil =>
      rw [← List.length_reverse, hreverse] at hlength
      simp at hlength
    | cons secondLast rest =>
      refine ⟨rest.reverse, secondLast, last, ?_⟩
      rw [← List.reverse_reverse name.encodedElements, hreverse, List.reverse_cons,
        List.reverse_cons, List.append_assoc]
      rfl

/-- A result is returned exactly if the last two components, if any, can be read. -/
theorem exists_verifySignature_iff :
    (∃ result, verifySignature library lastFirst name key = .ok result) ↔
      ∀ before infoComponent valueComponent,
        name.encodedElements = before ++ [infoComponent, valueComponent] →
          IsReadable lastFirst infoComponent valueComponent := by
  by_cases hlength : name.encodedElements.length < 2
  · refine iff_of_true ⟨false, verifySignature_eq_false hlength⟩ ?_
    intro before infoComponent valueComponent helements
    rw [helements, List.length_append] at hlength
    simp at hlength
  · obtain ⟨before, infoComponent, valueComponent, helements⟩ := exists_elements hlength
    have hunique : (∀ before' infoComponent' valueComponent',
        name.encodedElements = before' ++ [infoComponent', valueComponent'] →
          IsReadable lastFirst infoComponent' valueComponent') ↔
        IsReadable lastFirst infoComponent valueComponent := by
      constructor
      · intro hread
        exact hread before infoComponent valueComponent helements
      · intro hread before' infoComponent' valueComponent' helements'
        have htails := List.append_inj_right' (helements.symm.trans helements') rfl
        simp only [List.cons.injEq, and_true] at htails
        rw [← htails.1, ← htails.2]
        exact hread
    rw [hunique, ← isCaught_signature_iff, verifySignature_eq helements]
    cases hsignature : signature lastFirst infoComponent valueComponent with
    | error error =>
      have hthrow : catchBlockError (.error error) =
          if error.isBlockError then .ok false else .error error := rfl
      change (∃ result, catchBlockError (.error error) = .ok result) ↔ _
      rw [hthrow]
      cases hblock : error.isBlockError with
      | true =>
        refine iff_of_true ⟨false, rfl⟩ ?_
        intro error' hthrow'
        cases hthrow'
        exact hblock
      | false =>
        refine iff_of_false ?_ fun hcaught ↦ ?_
        · rintro ⟨result, hresult⟩
          cases hresult
        · rw [hcaught error rfl] at hblock
          cases hblock
    | ok pair =>
      refine iff_of_true ?_ (isCaught_ok _)
      obtain ⟨info, value⟩ := pair
      change ∃ result, catchBlockError
        (if !info.hasKeyLocator then .ok false else .ok (verifyBuffer library _ info value key)) =
          .ok result
      split_ifs
      · exact ⟨_, rfl⟩
      · exact ⟨_, rfl⟩

/-- `true` is returned exactly if the parts of the name are there and the signature in them verifies
over the range. -/
theorem verifySignature_eq_true_iff :
    verifySignature library lastFirst name key = .ok true ↔
      ∃ parts : Parts, parts.IsOf name ∧
        verifyBuffer library (signedRange name parts.valueComponent) parts.info parts.value key =
          true := by
  constructor
  · intro hverify
    by_cases hlength : name.encodedElements.length < 2
    · rw [verifySignature_eq_false hlength] at hverify
      cases hverify
    · obtain ⟨before, infoComponent, valueComponent, helements⟩ := exists_elements hlength
      rw [verifySignature_eq helements] at hverify
      cases hsignature : signature lastFirst infoComponent valueComponent with
      | error error =>
        rw [hsignature] at hverify
        change (if error.isBlockError then Except.ok false else Except.error error) =
          Except.ok true at hverify
        split_ifs at hverify
        cases hverify
      | ok pair =>
        obtain ⟨info, value⟩ := pair
        rw [hsignature] at hverify
        change catchBlockError (if !info.hasKeyLocator then .ok false
          else .ok (verifyBuffer library _ info value key)) = .ok true at hverify
        obtain ⟨hinfo, hvalue⟩ := signature_eq_ok_iff.mp hsignature
        cases hlocator : info.hasKeyLocator with
        | false =>
          rw [hlocator] at hverify
          cases hverify
        | true =>
          rw [hlocator] at hverify
          refine ⟨⟨before, infoComponent, valueComponent, info, value⟩,
            ⟨helements, hinfo, hlocator, hvalue⟩, ?_⟩
          exact Except.ok.inj hverify
  · intro hparts
    obtain ⟨parts, hparts, hverify⟩ := hparts
    have hsignature : signature lastFirst parts.infoComponent parts.valueComponent =
        .ok (parts.info, parts.value) :=
      signature_eq_ok_iff.mpr ⟨hparts.info, hparts.value⟩
    rw [verifySignature_eq hparts.elements, hsignature]
    change catchBlockError (if !parts.info.hasKeyLocator then .ok false
      else .ok (verifyBuffer library _ parts.info parts.value key)) = .ok true
    rw [hparts.keyLocator, hverify]
    rfl

/-- A last component whose size 32 bits count leaves exactly the bytes before it. -/
theorem signedRange_eq {parts : Parts} (hparts : parts.IsOf name)
    (hsize : parts.valueComponent.wire.length < 2 ^ 32) :
    signedRange name parts.valueComponent = parts.signedBytes := by
  have hvalue : name.encoded.value = name.encodedElements.flatMap Block.wire := by
    unfold StoredName.encoded StoredName.encodedElements
    cases hkept : name.nameBlock with
    | some block =>
      rw [Option.getD_some, Option.isSome_some, if_pos rfl]
      exact (Block.parse_eq_ok_iff.mp (name.parsed block hkept).2).1
    | none => rfl
  have hsplit : name.encoded.value = parts.signedBytes ++ parts.valueComponent.wire := by
    rw [hvalue, hparts.elements, Parts.signedBytes, List.flatMap_append, List.flatMap_append]
    simp
  have hlast : parts.valueComponent.size = parts.valueComponent.wire.length :=
    Nat.mod_eq_of_lt hsize
  rw [signedRange, hlast, hsplit, List.length_append, Nat.add_sub_cancel, List.take_left]

/-- The verification of an Interest is sound exactly for the names that it handles. -/
theorem verifiesSoundly_iff (library : SignatureLibrary) (lastFirst : Bool) (name : StoredName)
    (key : Option PublicKeyInfo) :
    VerifiesSoundly library lastFirst name key ↔ IsHandled library lastFirst name key := by
  constructor
  · intro hsound
    obtain ⟨result, hresult, hattests⟩ := hsound
    refine ⟨exists_verifySignature_iff.mp ⟨result, hresult⟩, ?_⟩
    intro parts hparts hverify
    have htrue : verifySignature library lastFirst name key = .ok true :=
      verifySignature_eq_true_iff.mpr ⟨parts, hparts, hverify⟩
    obtain rfl : result = true := Except.ok.inj (hresult.symm.trans htrue)
    obtain ⟨parts', hparts', htype, hexact⟩ := hattests rfl
    obtain rfl : parts' = parts := hparts'.unique hparts
    exact ⟨htype, .inr hexact⟩
  · intro hhandled
    obtain ⟨result, hresult⟩ : ∃ result, verifySignature library lastFirst name key = .ok result :=
      exists_verifySignature_iff.mpr hhandled.readable
    refine ⟨result, hresult, ?_⟩
    rintro rfl
    obtain ⟨parts, hparts, hverify⟩ := verifySignature_eq_true_iff.mp hresult
    obtain ⟨htype, hsize | hexact⟩ := hhandled.typed parts hparts hverify
    · rw [signedRange_eq hparts hsize] at hverify
      exact ⟨parts, hparts, htype, hverify⟩
    · exact ⟨parts, hparts, htype, hexact⟩

/-- A name of the two components `A` and `B`: neither holds a TLV. -/
theorem not_verifiesSoundly_letters :
    ∃ name : StoredName, name = (StoredName.empty.append ⟨8, [65], [8, 1, 65]⟩ (by decide)).append
        ⟨8, [66], [8, 1, 66]⟩ (by decide) ∧
      ∀ (library : SignatureLibrary) (lastFirst : Bool) (key : Option PublicKeyInfo),
        verifySignature library lastFirst name key =
          .error ⟨.tlv, "Empty buffer during TLV processing"⟩ ∧
        ¬ VerifiesSoundly library lastFirst name key := by
  refine ⟨_, rfl, fun library lastFirst key ↦ ?_⟩
  have hthrow : verifySignature library lastFirst
      ((StoredName.empty.append ⟨8, [65], [8, 1, 65]⟩ (by decide)).append
        ⟨8, [66], [8, 1, 66]⟩ (by decide)) key =
      .error ⟨.tlv, "Empty buffer during TLV processing"⟩ := by
    cases lastFirst <;> rfl
  refine ⟨hthrow, ?_⟩
  rintro ⟨result, hresult, -⟩
  rw [hthrow] at hresult
  cases hresult

end InterestSignature

end NdnCxx
