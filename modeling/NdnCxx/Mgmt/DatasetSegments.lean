import Mathlib.Algebra.Order.BigOperators.Group.List
import NdnCxx.Foundation.Segmentation
import NdnCxx.Mgmt.StatusDatasetContext

/-!
# The segments of a response

Whatever a handler appends, the segments that are sent and the buffer make up the bytes that were
taken, and a segment is sent only when it is full and more bytes follow. The bytes that are taken are
those of the blocks, unless the size of a block does not fit into 32 bits.
-/

namespace NdnCxx.StatusDatasetContext

variable {R : Type*}

def segments (sent : List (Sent R)) : List DatasetSegment :=
  sent.filterMap fun
    | .data segment => some segment
    | .nack _ => none

def Call.isOpen : Call R → Bool
  | .setPrefix _ _ | .setExpiry _ | .append _ => true
  | .endResponse | .reject _ => false

def Call.block? : Call R → Option Block
  | .append block => some block
  | .setPrefix _ _ | .setExpiry _ | .endResponse | .reject _ => none

def taken (block : Block) : Bytes := block.wire.take (block.wire.length % 2 ^ 32)

/-- The segments are a response with these blocks: in the order of their numbers, which have no gap,
their contents are the blocks, none is larger than half a packet, and the last one and no other
has a FinalBlockId. -/
structure IsResponse (blocks : List Block) (sent : List DatasetSegment) : Prop where
  joined : sent.flatMap DatasetSegment.content = blocks.flatMap Block.wire
  ne_nil : sent ≠ []
  small : ∀ segment ∈ sent, segment.content.length ≤ Tlv.maxNdnPacketSize / 2
  dispatched : ∀ index segment, sent[index]? = some segment →
    ∃ data last, segment.sendStatusDatasetSegment = .ok data ∧
      data.content = segment.content ∧ data.dataName.get (-1) = some last ∧
      last.toSegment = .ok index ∧
      data.finalBlockId = if index + 1 = sent.length then last else Component.empty

/-! ## Filling the buffer -/

/-- The segments sent so far and the buffer, with all bytes that were taken -/
structure Cut (context : StatusDatasetContext) (sent : List DatasetSegment) (whole : Bytes) :
    Prop where
  segmentation : Segmentation segmentSize (sent.map DatasetSegment.content) context.buffer whole
  named : ∀ index segment, sent[index]? = some segment →
    segment.dataName = context.dataPrefix.appendSegment (index % 2 ^ 64) ∧
      segment.isFinalBlock = false
  next : context.segmentNo = sent.length % 2 ^ 64

variable {segment : DatasetSegment} {calls : List (Call R)}

namespace Cut

variable {context : StatusDatasetContext} {sent : List DatasetSegment} {whole more : Bytes}

theorem fill (hcut : Cut context sent whole)
    (hfits : context.buffer.length + more.length ≤ segmentSize) :
    Cut { context with buffer := context.buffer ++ more } sent (whole ++ more) :=
  ⟨hcut.segmentation.extend hfits, hcut.named, hcut.next⟩

/-- The segment with the next number -/
theorem named_append (hcut : Cut context sent whole) (isFinalBlock : Bool) {index : ℕ}
    (hsegment : (sent ++ [context.segment isFinalBlock])[index]? = some segment) :
    segment.dataName = context.dataPrefix.appendSegment (index % 2 ^ 64) ∧
      segment.isFinalBlock = if index = sent.length then isFinalBlock else false := by
  rcases lt_trichotomy index sent.length with hlt | rfl | hgt
  · rw [List.getElem?_append_left hlt] at hsegment
    rw [if_neg hlt.ne]
    exact hcut.named index segment hsegment
  · rw [List.getElem?_concat_length] at hsegment
    obtain rfl := Option.some.inj hsegment
    rw [if_pos rfl, ← hcut.next]
    exact ⟨rfl, rfl⟩
  · have hnone : (sent ++ [context.segment isFinalBlock])[index]? = none := by
      rw [List.getElem?_eq_none_iff, List.length_append, List.length_singleton]
      omega
    rw [hnone] at hsegment
    simp at hsegment

theorem flush (hcut : Cut context sent whole) (hfull : context.buffer.length = segmentSize) :
    Cut { context with buffer := [], segmentNo := (context.segmentNo + 1) % 2 ^ 64 }
      (sent ++ [context.segment false]) whole where
  segmentation := by simpa [segment] using hcut.segmentation.flush hfull
  named := by
    intro index segment hsegment
    simpa using hcut.named_append false hsegment
  next := by
    rw [hcut.next, List.length_append, List.length_singleton, Nat.mod_add_mod]

end Cut

/-- The loop takes all bytes, and leaves some of them in the buffer. -/
theorem appendLoop_spec {rounds : ℕ} {context final : StatusDatasetContext}
    {sent later : List DatasetSegment} {whole bytesLeft : Bytes} (hcut : Cut context sent whole)
    (hrounds : bytesLeft.length < rounds ∨
      bytesLeft.length ≤ rounds ∧ context.buffer.length < segmentSize)
    (hloop : appendLoop rounds context bytesLeft = (final, later)) :
    Cut final (sent ++ later) (whole ++ bytesLeft) ∧
      (bytesLeft ≠ [] → final.buffer ≠ []) ∧ (bytesLeft = [] → final = context ∧ later = []) ∧
      final.state = context.state := by
  have hsize : 0 < segmentSize := by decide
  induction rounds generalizing context sent whole bytesLeft later with
  | zero =>
    have hnil : bytesLeft = [] := List.eq_nil_of_length_eq_zero (by omega)
    obtain ⟨rfl, rfl⟩ := by simpa [appendLoop] using hloop
    simp [hnil, hcut]
  | succ rounds ih =>
    rw [appendLoop] at hloop
    by_cases hempty : bytesLeft = []
    · obtain ⟨rfl, rfl⟩ := by simpa [hempty] using hloop
      simp [hempty, hcut]
    have hbuffer := hcut.segmentation.fits
    have hpositive := List.length_pos_of_ne_nil hempty
    have hfits : context.buffer.length + (bytesLeft.take
        (min bytesLeft.length (segmentSize - context.buffer.length))).length ≤ segmentSize := by
      rw [List.length_take]
      omega
    have hfilled := hcut.fill hfits
    simp only [List.isEmpty_iff, hempty, if_false] at hloop
    split_ifs at hloop with hrest
    · obtain ⟨rfl, rfl⟩ := Prod.mk.inj hloop
      have hall : bytesLeft.take
          (min bytesLeft.length (segmentSize - context.buffer.length)) = bytesLeft := by
        rw [List.drop_eq_nil_iff] at hrest
        exact List.take_of_length_le hrest
      rw [hall] at hfilled ⊢
      exact ⟨by simpa using hfilled, by simp [hempty], by simp [hempty], rfl⟩
    · -- the buffer is full, since bytes are left
      rw [List.drop_eq_nil_iff, Nat.not_le] at hrest
      have hfull : (context.buffer ++ bytesLeft.take
          (min bytesLeft.length (segmentSize - context.buffer.length))).length = segmentSize := by
        rw [List.length_append, List.length_take]
        omega
      have hflushed := hfilled.flush hfull
      obtain ⟨rfl, rfl⟩ := Prod.mk.inj hloop
      have hrounds' : (bytesLeft.drop
          (min bytesLeft.length (segmentSize - context.buffer.length))).length ≤ rounds := by
        rw [List.length_drop]
        omega
      obtain ⟨hcut', hbegun, -, hstate⟩ :=
        ih hflushed (.inr ⟨hrounds', by simpa using hsize⟩) rfl
      have hleft : bytesLeft.drop
          (min bytesLeft.length (segmentSize - context.buffer.length)) ≠ [] := by
        rw [Ne, List.drop_eq_nil_iff]
        omega
      refine ⟨?_, fun _ ↦ hbegun hleft, fun hnil ↦ absurd hnil hempty, hstate⟩
      rw [List.append_assoc, List.append_assoc, List.take_append_drop] at hcut'
      exact hcut'

/-! ## Calls of a handler -/

/-- A response that can still be added to: if a segment has been sent, the buffer is not empty. -/
structure Open (context : StatusDatasetContext) (sent : List DatasetSegment) (whole : Bytes) :
    Prop extends Cut context sent whole where
  begun : sent ≠ [] → context.buffer ≠ []
  unsent : context.state = .initial → sent = []
  state_ne : context.state ≠ .finalized

theorem open_init (interestName : Name) (version : ℕ) : Open (init interestName version) [] [] where
  segmentation := .empty
  named := by simp
  next := rfl
  begun := by simp
  unsent := fun _ ↦ rfl
  state_ne := by simp [init]

theorem segments_append (first second : List (Sent R)) :
    segments (first ++ second) = segments first ++ segments second :=
  List.filterMap_append

@[simp]
theorem segments_map_data (sent : List DatasetSegment) :
    segments (sent.map (.data (R := R))) = sent := by
  induction sent with
  | nil => rfl
  | cons first rest ih => simp [segments]

namespace Open

variable {context : StatusDatasetContext} {sent : List DatasetSegment} {whole : Bytes}

theorem append (hopen : Open context sent whole) (block : Block) :
    Open (context.append (R := R) block).1
      (sent ++ segments (context.append (R := R) block).2.1)
      (whole ++ taken block) := by
  unfold StatusDatasetContext.append
  rw [if_neg hopen.state_ne]
  have hresponded : Cut { context with state := .responded } sent whole :=
    ⟨hopen.segmentation, hopen.named, hopen.next⟩
  cases hloop : appendLoop ((taken block).length + 1) { context with state := .responded }
      (taken block) with
  | mk final later =>
  obtain ⟨hcut, hbegun, hnone, hstate⟩ :=
    appendLoop_spec hresponded (.inl (Nat.lt_succ_self _)) hloop
  simp only [taken] at hloop hbegun hnone
  simp only [hloop, segments_map_data]
  refine ⟨hcut, fun hsent ↦ ?_, fun hinitial ↦ ?_, fun hfinalized ↦ ?_⟩
  · by_cases hempty : taken block = []
    · obtain ⟨rfl, rfl⟩ := hnone hempty
      exact hopen.begun (by simpa using hsent)
    · exact hbegun hempty
  · rw [hstate] at hinitial
    simp at hinitial
  · rw [hstate] at hfinalized
    simp at hfinalized

theorem call (hopen : Open context sent whole) {first : Call R}
    (hfirst : first.isOpen = true) :
    Open (context.call first).1 (sent ++ segments (context.call first).2.1)
      (whole ++ first.block?.toList.flatMap taken) := by
  cases first with
  | setPrefix dataPrefix version =>
    simp only [StatusDatasetContext.call, StatusDatasetContext.setPrefix, Call.block?]
    split_ifs with hprefix hstate
    · simpa [segments] using hopen
    · simpa [segments] using hopen
    · -- nothing was sent under the old name
      have hinitial : context.state = .initial := by simpa using hstate
      obtain rfl := hopen.unsent hinitial
      exact ⟨⟨by simpa [segments] using hopen.segmentation, by simp [segments], hopen.next⟩,
        by simp [segments], fun _ ↦ rfl, hopen.state_ne⟩
  | setExpiry expiry =>
    simp only [StatusDatasetContext.call, StatusDatasetContext.setExpiry, Call.block?, segments,
      List.filterMap_nil, List.append_nil, Option.toList_none, List.flatMap_nil]
    exact ⟨⟨hopen.segmentation, hopen.named, hopen.next⟩, hopen.begun, hopen.unsent,
      hopen.state_ne⟩
  | append block => simpa [StatusDatasetContext.call, Call.block?] using hopen.append block
  | endResponse => simp [Call.isOpen] at hfirst
  | reject response => simp [Call.isOpen] at hfirst

theorem respond (hopen : Open context sent whole) (hcalls : ∀ call ∈ calls, call.isOpen = true) :
    Open (context.respond calls).1 (sent ++ segments (context.respond calls).2)
      (whole ++ (calls.filterMap Call.block?).flatMap taken) := by
  induction calls generalizing context sent whole with
  | nil => simpa [StatusDatasetContext.respond, segments] using hopen
  | cons first rest ih =>
    have hnext := hopen.call (hcalls first List.mem_cons_self)
    have hrest := ih hnext fun call hcall ↦ hcalls call (List.mem_cons_of_mem _ hcall)
    have hblocks : ((first :: rest).filterMap Call.block?).flatMap taken =
        first.block?.toList.flatMap taken ++ (rest.filterMap Call.block?).flatMap taken := by
      cases hblock : first.block? <;> simp [hblock]
    rw [hblocks, ← List.append_assoc]
    simpa [StatusDatasetContext.respond, segments_append, List.append_assoc] using hrest

end Open

/-! ## Ending -/

theorem respond_append (context : StatusDatasetContext)
    (first second : List (Call R)) :
    context.respond (first ++ second) =
      (((context.respond first).1.respond second).1,
        (context.respond first).2 ++ ((context.respond first).1.respond second).2) := by
  induction first generalizing context with
  | nil => rfl
  | cons call rest ih =>
    simp only [List.cons_append, respond, ih, List.append_assoc]

/-- What is sent by a handler that ends its response -/
theorem segments_endResponse {context : StatusDatasetContext} {sent : List DatasetSegment}
    {whole : Bytes} (hopen : Open context sent whole)
    (hcalls : ∀ call ∈ calls, call.isOpen = true) :
    segments (context.respond (calls ++ [.endResponse])).2 =
      segments (context.respond calls).2 ++ [(context.respond calls).1.segment true] := by
  have hend := (hopen.respond hcalls).state_ne
  rw [respond_append, segments_append]
  simp [respond, call, endResponse, hend, segments]

variable {blocks : List Block}

/-- Bytes are lost only from a block whose size does not fit into 32 bits. -/
theorem flatMap_taken_eq_iff :
    blocks.flatMap taken = blocks.flatMap Block.wire ↔
      ∀ block ∈ blocks, block.wire.length < 2 ^ 32 := by
  constructor
  · intro heq
    induction blocks with
    | nil => simp
    | cons block rest ih =>
      have hle (block : Block) : (taken block).length ≤ block.wire.length := by
        rw [taken, List.length_take]
        omega
      have hlengths := congrArg List.length heq
      simp only [List.flatMap_cons, List.length_append, List.length_flatMap] at hlengths
      have hrest : (rest.map fun block ↦ (taken block).length).sum ≤
          (rest.map fun block ↦ block.wire.length).sum :=
        List.sum_le_sum fun block _ ↦ hle block
      have hfirst := hle block
      have hsame : (taken block).length = block.wire.length := by omega
      have hsmall : block.wire.length < 2 ^ 32 := by
        rw [taken, List.length_take] at hsame
        omega
      rw [List.flatMap_cons, List.flatMap_cons] at heq
      have htail := ih (List.append_inj_right heq hsame)
      exact List.forall_mem_cons.mpr ⟨hsmall, htail⟩
  · intro hsmall
    refine List.flatMap_congr fun block hblock ↦ ?_
    rw [taken, Nat.mod_eq_of_lt (hsmall block hblock), List.take_length]

theorem sendStatusDatasetSegment_eq {dataPrefix : Name} {segmentNo : ℕ}
    (hname : segment.dataName = dataPrefix.appendSegment segmentNo) (hsmall : segmentNo < 2 ^ 64) :
    segment.sendStatusDatasetSegment = .ok
      { dataName := segment.dataName
        content := segment.content
        finalBlockId :=
          if segment.isFinalBlock then Component.fromSegment segmentNo else Component.empty
        destination := if segmentNo = 0 then .faceAndIms else .ims
        imsFresh := segment.imsFresh } := by
  unfold DatasetSegment.sendStatusDatasetSegment
  rw [hname, Name.appendSegment, Name.get_append_singleton]
  simp only [Option.getD_some, Component.toSegment_fromSegment hsmall]
  rfl

/-- The segments of a response that is ended, as they are sent by the dispatcher -/
theorem dispatched_endResponse {context : StatusDatasetContext} {sent : List DatasetSegment}
    {whole : Bytes} (hcut : Cut context sent whole) {index : ℕ}
    (hsegment : (sent ++ [context.segment true])[index]? = some segment) :
    ∃ data, segment.sendStatusDatasetSegment = .ok data ∧ data.content = segment.content ∧
      data.dataName.get (-1) = some (Component.fromSegment (index % 2 ^ 64)) ∧
      (Component.fromSegment (index % 2 ^ 64)).toSegment = .ok (index % 2 ^ 64) ∧
      data.finalBlockId = if index = sent.length then Component.fromSegment (index % 2 ^ 64)
        else Component.empty := by
  obtain ⟨hname, hfinal⟩ := hcut.named_append true hsegment
  have hsmall : index % 2 ^ 64 < 2 ^ 64 := Nat.mod_lt _ (by decide)
  refine ⟨_, sendStatusDatasetSegment_eq hname hsmall, rfl, ?_,
    Component.toSegment_fromSegment hsmall, ?_⟩
  · rw [hname, Name.appendSegment, Name.get_append_singleton]
  · by_cases hindex : index = sent.length
    · simp [hfinal, hindex]
    · simp [hfinal, hindex]

theorem isResponse_of_open {context : StatusDatasetContext} {sent : List DatasetSegment}
    (hopen : Open context sent (blocks.flatMap taken)) :
    IsResponse blocks (sent ++ [context.segment true]) ↔
      (∀ block ∈ blocks, block.wire.length < 2 ^ 32) ∧
        (blocks.flatMap Block.wire).length ≤ segmentSize * 2 ^ 64 := by
  have hjoined : (sent ++ [context.segment true]).flatMap DatasetSegment.content =
      blocks.flatMap taken := by
    rw [← hopen.segmentation.joined, List.flatMap_append, List.flatMap_singleton]
    rfl
  constructor
  · intro hresponse
    have hsame := hjoined.symm.trans hresponse.joined
    refine ⟨flatMap_taken_eq_iff.mp hsame, ?_⟩
    have hcount : sent.length < 2 ^ 64 := by
      by_contra hmany
      have hexists : 2 ^ 64 < (sent ++ [context.segment true]).length := by
        rw [List.length_append, List.length_singleton]
        omega
      have hget := List.getElem?_eq_getElem hexists
      obtain ⟨data, last, hdata, -, hlast, hnumber, -⟩ := hresponse.dispatched _ _ hget
      obtain ⟨data', hdata', -, hlast', hnumber', -⟩ :=
        dispatched_endResponse hopen.toCut hget
      obtain rfl := Except.ok.inj (hdata.symm.trans hdata')
      obtain rfl := Option.some.inj (hlast.symm.trans hlast')
      have hwrong := Except.ok.inj (hnumber.symm.trans hnumber')
      simp at hwrong
    calc
      _ = (blocks.flatMap taken).length := by rw [hsame]
      _ ≤ segmentSize * ((sent.map DatasetSegment.content).length + 1) :=
        hopen.segmentation.length_le
      _ ≤ segmentSize * 2 ^ 64 := by
        rw [List.length_map]
        exact Nat.mul_le_mul_left _ hcount
  · rintro ⟨hsmall, htotal⟩
    have hwires := flatMap_taken_eq_iff.mpr hsmall
    rw [← hwires] at htotal
    have hcount : sent.length < 2 ^ 64 := by
      have hfull := hopen.segmentation.length_full_lt
        (fun hfull ↦ hopen.begun (by simpa using hfull)) (by decide) htotal
      rwa [List.length_map] at hfull
    refine ⟨hjoined.trans hwires, by simp, ?_, ?_⟩
    · intro segment hmem
      rcases List.mem_append.mp hmem with hfull | hlast
      · exact (hopen.segmentation.isFull _ (List.mem_map_of_mem hfull)).le
      · rw [List.mem_singleton.mp hlast]
        exact hopen.segmentation.fits
    · intro index segment hsegment
      have hindex : index < sent.length + 1 := by
        have hlt := (List.getElem?_eq_some_iff.mp hsegment).1
        rwa [List.length_append, List.length_singleton] at hlt
      have hnumber : index % 2 ^ 64 = index := Nat.mod_eq_of_lt (by omega)
      obtain ⟨data, hdata, hcontent, hlast, hsegmentNo, hfinal⟩ :=
        dispatched_endResponse hopen.toCut hsegment
      rw [hnumber] at hlast hsegmentNo hfinal
      refine ⟨data, _, hdata, hcontent, hlast, hsegmentNo, ?_⟩
      rw [hfinal, List.length_append, List.length_singleton]
      simp only [Nat.add_right_cancel_iff]

/-! ## After the end -/

def Call.answers : Call R → Bool
  | .append _ | .endResponse | .reject _ => true
  | .setPrefix _ _ | .setExpiry _ => false

theorem state_call_of_finalized {context : StatusDatasetContext}
    (hfinalized : context.state = .finalized) (next : Call R) :
    (context.call next).1.state = .finalized ∧
      (next.answers = true → ∃ thrown, context.call next = (context, [], some thrown)) := by
  cases next with
  | setPrefix dataPrefix version =>
    simp only [call, setPrefix, Call.answers]
    split_ifs <;> simp [hfinalized]
  | _ => simp [call, setExpiry, append, endResponse, reject, Call.answers, hfinalized]

theorem state_respond_of_finalized {context : StatusDatasetContext}
    (hfinalized : context.state = .finalized) (later : List (Call R)) :
    (context.respond later).1.state = .finalized := by
  induction later generalizing context with
  | nil => exact hfinalized
  | cons first rest ih => exact ih (state_call_of_finalized hfinalized first).1

/-- A call of `end` or `reject` that returns is the last one that sends anything. -/
theorem finalized_of_closes {context : StatusDatasetContext} {closing : Call R}
    (hcloses : closing.isOpen = false) (hreturns : (context.call closing).2.2 = none) :
    (context.call closing).1.state = .finalized := by
  cases closing with
  | endResponse =>
    simp only [call, endResponse] at hreturns ⊢
    split_ifs with hstate
    · exact hstate
    · rfl
  | reject response =>
    simp only [call, reject] at hreturns ⊢
    split_ifs at hreturns with hstate
    rw [if_neg hstate]
  | _ => simp [Call.isOpen] at hcloses

/-- A handler that appends blocks and then ends its response sends these blocks, cut into segments
with gapless numbers of which the last alone is marked, if and only if every block has less than 2^32
bytes and there are no more than 2^64 segments of them. After `end` or `reject` has returned, whatever
else was called, `append`, `end` and `reject` throw, change nothing and send nothing. -/
theorem isResponse_endResponse_iff {interestName : Name} {version : ℕ}
    (hcalls : ∀ call ∈ calls, call.isOpen = true) :
    (IsResponse (calls.filterMap Call.block?)
        (segments ((init interestName version).respond (calls ++ [.endResponse])).2) ↔
      (∀ block ∈ calls.filterMap Call.block?, block.wire.length < 2 ^ 32) ∧
        ((calls.filterMap Call.block?).flatMap Block.wire).length ≤ segmentSize * 2 ^ 64) ∧
    ∀ (before later : List (Call R)) (closing last : Call R),
      closing.isOpen = false →
      (((init interestName version).respond before).1.call closing).2.2 = none →
      last.answers = true →
      ∃ thrown, ((init interestName version).respond (before ++ closing :: later)).1.call last =
        (((init interestName version).respond (before ++ closing :: later)).1, [], some thrown) := by
  have hinit := open_init interestName version
  constructor
  · have hopen := hinit.respond hcalls
    rw [List.nil_append, List.nil_append] at hopen
    rw [segments_endResponse hinit hcalls]
    exact isResponse_of_open hopen
  · intro before later closing last hcloses hreturns hanswers
    have hclosed := finalized_of_closes hcloses hreturns
    have hfinal := state_respond_of_finalized hclosed later
    rw [respond_append]
    exact (state_call_of_finalized hfinal last).2 hanswers

/-- Two blocks in one segment -/
theorem isResponse_twoBlocks :
    IsResponse ([.append ⟨128, [], [128, 0]⟩, .append ⟨129, [1], [129, 1, 1]⟩].filterMap
        (Call.block? (R := Unit)))
      (segments ((init [.generic [65]] 5).respond (R := Unit)
        ([.append ⟨128, [], [128, 0]⟩, .append ⟨129, [1], [129, 1, 1]⟩] ++ [.endResponse])).2) :=
  (isResponse_endResponse_iff (by decide)).1.mpr (by decide)

/-- A block with a value of zeros. With 2^32 of them its size is 10 modulo 2^32. -/
def zeros (length : ℕ) : Block where
  type := 128
  value := List.replicate length 0
  wire := Tlv.writeVarNumber 128 ++ Tlv.writeVarNumber length ++ List.replicate length 0

theorem le_length_zeros (length : ℕ) : length ≤ (zeros length).wire.length := by
  rw [zeros, List.length_append, List.length_replicate]
  exact Nat.le_add_left _ _

/-- Only the header of such a block is sent. -/
theorem not_isResponse_zeros :
    ¬ IsResponse [zeros (2 ^ 32)]
      (segments ((init [.generic [65]] 5).respond (R := Unit)
        ([.append (zeros (2 ^ 32))] ++ [.endResponse])).2) := by
  have hlong := le_length_zeros (2 ^ 32)
  generalize zeros (2 ^ 32) = block at hlong ⊢
  have hinit := open_init [.generic [65]] 5
  have hcalls : ∀ call ∈ [Call.append (R := Unit) block], call.isOpen = true := by
    simp [Call.isOpen]
  intro hresponse
  rw [segments_endResponse hinit hcalls] at hresponse
  have hopen := hinit.respond hcalls
  rw [List.nil_append, List.nil_append] at hopen
  have hsmall := ((isResponse_of_open hopen).mp hresponse).1 block (by simp [Call.block?])
  omega

end NdnCxx.StatusDatasetContext
