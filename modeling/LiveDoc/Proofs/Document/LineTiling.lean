import LiveDoc.Proofs.Document.LineIndex

/-!
The line index over the bytes of a text. The byte of a newline stands for nothing but a newline, so
the index says what the bytes say, also for an offset inside a character: it counts the newlines in
front of the offset, the line that it names is around the offset, and the spans of its lines tile
the bytes, each with its newline behind it.
-/
namespace LiveDoc

def newlineByte : UInt8 := 10

/-! ### Bytes of newlines -/

/-- A text in UTF-8. -/
def encoded (text : List Char) : List UInt8 := text.flatMap String.utf8EncodeChar

theorem encoded_cons (c : Char) (rest : List Char) :
    encoded (c :: rest) = String.utf8EncodeChar c ++ encoded rest :=
  List.flatMap_cons

theorem high_of_mem_utf8EncodeChar {c : Char} (hc : 127 < c.val.toNat) {b : UInt8}
    (hb : b ∈ String.utf8EncodeChar c) : 128 ≤ b.toNat := by
  rw [String.utf8EncodeChar, if_neg (Nat.not_le.mpr hc)] at hb
  split at hb
  · simp only [List.mem_cons, List.not_mem_nil, or_false] at hb
    rcases hb with rfl | rfl
    all_goals
      rw [UInt8.toNat_ofNat']
      omega
  · split at hb
    all_goals simp only [List.mem_cons, List.not_mem_nil, or_false] at hb
    · rcases hb with rfl | rfl | rfl
      all_goals
        rw [UInt8.toNat_ofNat']
        omega
    · rcases hb with rfl | rfl | rfl | rfl
      all_goals
        rw [UInt8.toNat_ofNat']
        omega

theorem newlineByte_not_mem {c : Char} (hc : c ≠ '\n') :
    newlineByte ∉ String.utf8EncodeChar c := by
  intro hmem
  by_cases hascii : c.val.toNat ≤ 127
  · rw [String.utf8EncodeChar, if_pos hascii] at hmem
    have hvalue := congrArg UInt8.toNat (List.mem_singleton.mp hmem)
    rw [UInt8.toNat_ofNat', Nat.mod_eq_of_lt (by omega)] at hvalue
    exact hc (Char.ext (UInt32.toNat.inj hvalue.symm))
  · have hhigh := high_of_mem_utf8EncodeChar (by omega) hmem
    exact absurd hhigh (by decide)

/-- The offsets behind the newlines of some bytes that begin at `offset`. -/
def startsBehind (offset : Nat) : List UInt8 → List Nat
  | [] => []
  | b :: rest =>
    if b = newlineByte then (offset + 1) :: startsBehind (offset + 1) rest
    else startsBehind (offset + 1) rest

theorem startsBehind_append_of_not_mem {run : List UInt8} (hrun : newlineByte ∉ run)
    (offset : Nat) (rest : List UInt8) :
    startsBehind offset (run ++ rest) = startsBehind (offset + run.length) rest := by
  induction run generalizing offset with
  | nil => rfl
  | cons b run ih =>
    simp only [List.mem_cons, not_or] at hrun
    rw [List.cons_append, startsBehind, if_neg (Ne.symm hrun.1), ih hrun.2, List.length_cons]
    congr 1
    omega

theorem startsFrom_eq (offset : Nat) (text : List Char) :
    Source.startsFrom offset text = startsBehind offset (encoded text) := by
  induction text generalizing offset with
  | nil => rfl
  | cons c rest ih =>
    rw [encoded_cons, Source.startsFrom]
    split
    · rename_i hc
      subst hc
      rw [ih]
      rfl
    · rename_i hc
      rw [startsBehind_append_of_not_mem (newlineByte_not_mem hc), String.length_utf8EncodeChar, ih]

theorem length_startsBehind (offset : Nat) (bytes : List UInt8) :
    (startsBehind offset bytes).length = bytes.count newlineByte := by
  induction bytes generalizing offset with
  | nil => rfl
  | cons b rest ih =>
    rw [startsBehind]
    split
    · rename_i hb
      rw [hb, List.count_cons_self, List.length_cons, ih]
    · rename_i hb
      rw [List.count_cons_of_ne hb, ih]

theorem countP_startsBehind (offset bound : Nat) (bytes : List UInt8) :
    (startsBehind offset bytes).countP (· ≤ bound) =
      (bytes.take (bound - offset)).count newlineByte := by
  induction bytes generalizing offset with
  | nil => simp [startsBehind]
  | cons b rest ih =>
    have hrest := ih (offset + 1)
    by_cases hbound : offset + 1 ≤ bound
    · have htake : bound - offset = bound - (offset + 1) + 1 := by omega
      rw [startsBehind, htake, List.take_succ_cons]
      split
      · rename_i hb
        rw [List.countP_cons_of_pos (by simpa using hbound), hrest, hb, List.count_cons_self]
      · rename_i hb
        rw [hrest, List.count_cons_of_ne hb]
    · have hnone : bound - (offset + 1) = 0 := by omega
      have hnone' : bound - offset = 0 := by omega
      rw [hnone, List.take_zero] at hrest
      rw [startsBehind, hnone', List.take_zero]
      split
      · rw [List.countP_cons_of_neg (by simpa using hbound), hrest]
      · exact hrest

/-! ### Spans of lines -/

/-- The bytes between two offsets. -/
def slice (bytes : List UInt8) (start stop : Nat) : List UInt8 :=
  (bytes.drop start).take (stop - start)

/-- The lines of some bytes from an offset on: each one but the last ends in front of a newline,
and the next one begins behind it. -/
inductive LineTiling (bytes : List UInt8) : Nat → List Span → Prop where
  | last {start : Nat} : start ≤ bytes.length →
      newlineByte ∉ slice bytes start bytes.length →
      LineTiling bytes start [⟨start, bytes.length⟩]
  | line {start stop : Nat} {rest : List Span} : start ≤ stop →
      newlineByte ∉ slice bytes start stop → bytes[stop]? = some newlineByte →
      LineTiling bytes (stop + 1) rest → LineTiling bytes start (⟨start, stop⟩ :: rest)

section Slices

variable {bytes : List UInt8} {start middle stop : Nat}

theorem slice_append (hle : start ≤ middle) (hle' : middle ≤ stop) :
    slice bytes start stop = slice bytes start middle ++ slice bytes middle stop := by
  have hstop : stop - start = (middle - start) + (stop - middle) := by omega
  have hmiddle : start + (middle - start) = middle := by omega
  rw [slice, hstop, List.take_add, List.drop_drop, hmiddle]
  rfl

theorem slice_singleton {b : UInt8} (h : bytes[stop]? = some b) :
    slice bytes stop (stop + 1) = [b] := by
  obtain ⟨hstop, rfl⟩ := List.getElem?_eq_some_iff.mp h
  have hone : stop + 1 - stop = 1 := by omega
  rw [slice, hone, List.drop_eq_getElem_cons hstop, List.take_succ_cons, List.take_zero]

theorem slice_front {front : List UInt8} (hle : start ≤ front.length) (rest : List UInt8) :
    slice (front ++ rest) start front.length = front.drop start := by
  rw [slice, List.drop_append_of_le_length hle, ← List.length_drop, List.take_left]

theorem slice_whole (bytes : List UInt8) (start : Nat) :
    slice bytes start bytes.length = bytes.drop start := by
  rw [slice, ← List.length_drop, List.take_length]

end Slices

namespace LineTiling

variable {bytes : List UInt8} {start offset : Nat} {spans : List Span}

/-- The line of an offset is behind as many lines as there are newlines in front of the offset. -/
theorem around (h : LineTiling bytes start spans) (hstart : start ≤ offset)
    (hstop : offset ≤ bytes.length) :
    ∃ span, spans[(slice bytes start offset).count newlineByte]? = some span ∧
      span.start ≤ offset ∧ offset ≤ span.stop := by
  induction h with
  | @last start hle hline =>
    rw [slice_append hstart hstop] at hline
    rw [List.count_eq_zero.mpr fun hmem => hline (List.mem_append_left _ hmem)]
    exact ⟨_, rfl, hstart, hstop⟩
  | @line start stop rest hle hline hend hrest ih =>
    by_cases hin : offset ≤ stop
    · rw [slice_append hstart hin] at hline
      rw [List.count_eq_zero.mpr fun hmem => hline (List.mem_append_left _ hmem)]
      exact ⟨_, rfl, hstart, hin⟩
    · have hnext : stop + 1 ≤ offset := by omega
      obtain ⟨span, hspan, hbounds⟩ := ih hnext
      refine ⟨span, ?_, hbounds⟩
      rw [slice_append (Nat.le_succ_of_le hle) hnext, slice_append hle (Nat.le_succ stop),
        slice_singleton hend, List.count_append, List.count_append, List.count_eq_zero.mpr hline,
        List.count_singleton_self, Nat.zero_add, Nat.add_comm, List.getElem?_cons_succ]
      exact hspan

theorem ne_nil (h : LineTiling bytes start spans) : spans ≠ [] := by
  cases h with
  | last => exact List.cons_ne_nil _ _
  | line => exact List.cons_ne_nil _ _

theorem start_le (h : LineTiling bytes start spans) : start ≤ bytes.length := by
  cases h with
  | last hle => exact hle
  | line hle hline hend =>
    have hstop := (List.getElem?_eq_some_iff.mp hend).1
    omega

/-- The lines with a newline between them are all that there is. -/
theorem intercalate_slices (h : LineTiling bytes start spans) :
    [newlineByte].intercalate (spans.map fun span => slice bytes span.start span.stop) =
      bytes.drop start := by
  induction h with
  | @last start hle hline => rw [List.map_singleton, List.intercalate_singleton, slice_whole]
  | @line start stop rest hle hline hend hrest ih =>
    have hnext := hrest.start_le
    rw [List.map_cons, List.intercalate_cons_of_ne_nil (by simpa using hrest.ne_nil), ih,
      ← slice_whole bytes start, slice_append (Nat.le_succ_of_le hle) hnext,
      slice_append hle (Nat.le_succ stop), slice_singleton hend, slice_whole]

end LineTiling

/-- The spans between the starts of lines and `stop`, without the newlines. -/
def spansBetween (stop : Nat) : List Nat → List Span
  | [] => []
  | [start] => [⟨start, stop⟩]
  | start :: next :: rest => ⟨start, next - 1⟩ :: spansBetween stop (next :: rest)

theorem getElem?_spansBetween (stop : Nat) (starts : List Nat) (i : Nat) :
    (spansBetween stop starts)[i]? = starts[i]?.map fun start =>
      ⟨start, match starts[i + 1]? with
        | some next => next - 1
        | none => stop⟩ := by
  induction starts generalizing i with
  | nil => rfl
  | cons start rest ih =>
    cases rest with
    | nil =>
      cases i with
      | zero => rfl
      | succ i => rfl
    | cons next rest =>
      cases i with
      | zero => rfl
      | succ i => exact ih i

/-- A line begins at `start`, and `front` has been read of it. -/
theorem lineTiling_spansBetween {start : Nat} (front : List UInt8) (hle : start ≤ front.length)
    (hline : newlineByte ∉ front.drop start) (bytes : List UInt8) :
    LineTiling (front ++ bytes) start
      (spansBetween (front ++ bytes).length (start :: startsBehind front.length bytes)) := by
  induction bytes generalizing start front with
  | nil =>
    rw [List.append_nil]
    exact .last hle (by rwa [slice_whole])
  | cons b rest ih =>
    have hfront : front ++ b :: rest = front ++ [b] ++ rest := by simp
    have hlength : (front ++ [b]).length = front.length + 1 := by simp
    rw [startsBehind]
    split
    · rename_i hb
      have hnext := @ih (front.length + 1) (front ++ [b]) (by simp)
        (by simp [List.drop_eq_nil_of_le])
      rw [hlength, ← hfront] at hnext
      exact .line hle (by rwa [Nat.add_sub_cancel, slice_front hle]) (by simp [hb]) hnext
    · rename_i hb
      have hrest := @ih start (front ++ [b]) (by omega) (by
        rw [List.drop_append_of_le_length hle]
        simpa [Ne.symm hb] using hline)
      rwa [hlength, ← hfront] at hrest

namespace Source

variable {s : Source}

def bytes (s : Source) : List UInt8 := s.text.toUTF8.data.toList

theorem bytes_eq (s : Source) : s.bytes = encoded s.text.toList := by
  rw [bytes, String.toUTF8_eq_toByteArray, ← String.utf8Encode_toList, List.utf8Encode,
    List.toList_data_toByteArray]
  rfl

theorem length_bytes (s : Source) : s.bytes.length = s.text.utf8ByteSize := rfl

theorem lineStarts_eq (s : Source) : s.lineStarts = 0 :: startsBehind 0 s.bytes := by
  rw [lineStarts, startsFrom_eq, bytes_eq]

theorem lineOffset_eq_count (s : Source) (offset : Nat) :
    s.lineOffset offset = (s.bytes.take offset).count newlineByte := by
  rw [lineOffset_eq_countP, lineStarts_eq, List.countP_cons_of_pos (by simp), countP_startsBehind]
  rfl

theorem lineCount_eq (s : Source) : s.lineCount = s.bytes.count newlineByte + 1 := by
  rw [lineCount, lineStarts_eq, List.length_cons, length_startsBehind]

/-- The spans of all lines. -/
def lineSpans (s : Source) : List Span := spansBetween s.bytes.length s.lineStarts

theorem lineSpan_succ (s : Source) (i : Nat) : s.lineSpan (i + 1) = s.lineSpans[i]? := by
  rw [lineSpan, if_neg (Nat.succ_ne_zero i), lineSpans, getElem?_spansBetween, length_bytes]
  rfl

theorem lineTiling_lineSpans (s : Source) : LineTiling s.bytes 0 s.lineSpans := by
  rw [lineSpans, lineStarts_eq]
  exact lineTiling_spansBetween [] (Nat.le_refl 0) List.not_mem_nil s.bytes

theorem isSome_lineSpan_iff (s : Source) (line : Nat) :
    (s.lineSpan line).isSome ↔ 1 ≤ line ∧ line ≤ s.lineCount := by
  cases line with
  | zero => simp [lineSpan]
  | succ i =>
    rw [lineSpan_succ, lineSpans, getElem?_spansBetween, Option.isSome_map, lineCount,
      isSome_getElem?]
    omega

/-- The index is exact, for every text and every offset in it, wherever characters end. -/
theorem lineIndex_exact (s : Source) :
    (∀ offset ≤ s.bytes.length,
      s.lineOffset offset = (s.bytes.take offset).count newlineByte ∧
        ∃ span, s.lineSpan (s.lineNumber offset) = some span ∧
          span.start ≤ offset ∧ offset ≤ span.stop) ∧
    s.lineCount = s.bytes.count newlineByte + 1 ∧
    (∀ line, (s.lineSpan line).isSome ↔ 1 ≤ line ∧ line ≤ s.lineCount) ∧
    ∃ spans : List Span, (∀ i, s.lineSpan (i + 1) = spans[i]?) ∧
      LineTiling s.bytes 0 spans ∧
      [newlineByte].intercalate (spans.map fun span => slice s.bytes span.start span.stop) =
        s.bytes := by
  have htiling := s.lineTiling_lineSpans
  refine ⟨fun offset hoffset => ⟨s.lineOffset_eq_count offset, ?_⟩, s.lineCount_eq,
    s.isSome_lineSpan_iff, s.lineSpans, s.lineSpan_succ, htiling, htiling.intercalate_slices⟩
  rw [lineNumber, lineSpan_succ, lineOffset_eq_count]
  exact htiling.around (Nat.zero_le offset) hoffset

/-- Three lines: an empty one, one with a character of two bytes, and an empty one at the end. -/
def accented : Source := ⟨"accented", "\né\n", 0⟩

/-- The offset 2 is inside the character. -/
theorem lineIndex_of_accented :
    accented.bytes = [10, 195, 169, 10] ∧ 2 ≤ accented.bytes.length ∧
      accented.lineOffset 2 = ([10, 195] : List UInt8).count newlineByte ∧
      (∃ span, accented.lineSpan (accented.lineNumber 2) = some span ∧ span.start ≤ 2 ∧
        2 ≤ span.stop) ∧
      [1, 2, 3].map accented.lineSpan = [some ⟨0, 0⟩, some ⟨1, 3⟩, some ⟨4, 4⟩] := by
  have hbytes : accented.bytes = [10, 195, 169, 10] := by decide
  have hoffset : 2 ≤ accented.bytes.length := by decide
  obtain ⟨hcount, hspan⟩ := (lineIndex_exact accented).1 2 hoffset
  rw [hbytes] at hcount
  exact ⟨hbytes, hoffset, hcount, hspan, by decide⟩

end Source

end LiveDoc
