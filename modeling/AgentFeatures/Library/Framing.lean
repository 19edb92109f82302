import Mathlib

/-! Frames ended by a separator, read from a stream that arrives in arbitrary chunks. -/

namespace Library

/-- A separator of frames: a text of at least one item. -/
structure Separator (α : Type) where
  first : α
  others : List α

namespace Separator

variable {α : Type} [DecidableEq α] (sep : Separator α)

def text : List α := sep.first :: sep.others

/-- What stands before and after the first separator, if there is one. -/
def splitFirst : List α → Option (List α × List α)
  | [] => none
  | c :: rest =>
      if sep.text.isPrefixOf (c :: rest) then some ([], (c :: rest).drop sep.text.length)
      else (splitFirst rest).map fun parts => (c :: parts.1, parts.2)

variable {sep}

/-- The two parts of a split make up the text with the separator between them, by induction. -/
theorem eq_of_splitFirst {buffer before after : List α}
    (found : sep.splitFirst buffer = some (before, after))
    : buffer = before ++ (sep.text ++ after) := by
  induction buffer generalizing before with
  | nil => cases found
  | cons c rest ih =>
      rw [splitFirst] at found
      split at found
      · next here =>
          obtain ⟨tail, cut⟩ := List.isPrefixOf_iff_prefix.mp here
          rw [← cut, List.drop_left] at found
          cases found
          rw [cut, List.nil_append]
      · obtain ⟨⟨front, back⟩, later, same⟩ := Option.map_eq_some_iff.mp found
        cases same
        rw [ih later, List.cons_append]

/-- The first separator stays the first one when more arrives. Witness: induction on the
buffer; an earlier separator would have to lie inside it.
-/
theorem splitFirst_append {buffer before after : List α}
    (found : sep.splitFirst buffer = some (before, after)) (more : List α)
    : sep.splitFirst (buffer ++ more) = some (before, after ++ more) := by
  induction buffer generalizing before with
  | nil => cases found
  | cons c rest ih =>
      have enough : sep.text.length ≤ (c :: rest).length := by
        rw [eq_of_splitFirst found, List.length_append, List.length_append]
        omega
      have sooner : sep.text.isPrefixOf (c :: rest ++ more) = sep.text.isPrefixOf (c :: rest) := by
        rw [Bool.eq_iff_iff, List.isPrefixOf_iff_prefix, List.isPrefixOf_iff_prefix]
        exact ⟨fun whole => List.prefix_of_prefix_length_le whole (List.prefix_append _ _) enough,
          fun part => part.trans (List.prefix_append _ _)⟩
      rw [splitFirst] at found
      rw [List.cons_append, splitFirst, ← List.cons_append, sooner]
      split at found
      · next here =>
          cases found
          rw [if_pos here, List.drop_append_of_le_length enough]
      · next elsewhere =>
          obtain ⟨⟨front, back⟩, later, same⟩ := Option.map_eq_some_iff.mp found
          cases same
          rw [if_neg elsewhere, ih later]
          rfl

/-- A frame without the separator's first item is split off whole, by induction. -/
theorem splitFirst_frame {frame : List α} (plain : sep.first ∉ frame) (rest : List α)
    : sep.splitFirst (frame ++ (sep.text ++ rest)) = some (frame, rest) := by
  induction frame with
  | nil =>
      have here : sep.text.isPrefixOf (sep.text ++ rest) :=
        List.isPrefixOf_iff_prefix.mpr (List.prefix_append _ _)
      rw [List.nil_append]
      rw [text, List.cons_append, splitFirst, ← List.cons_append, ← text, if_pos here,
        List.drop_left]
  | cons c front ih =>
      obtain ⟨differs, plain⟩ := not_or.mp (mt List.mem_cons.mpr plain)
      have elsewhere : sep.text.isPrefixOf (c :: (front ++ (sep.text ++ rest))) = false := by
        simp [text, List.isPrefixOf, differs]
      rw [List.cons_append, splitFirst, elsewhere, if_neg (by simp), ih plain]
      rfl

variable (sep) in
/-- Splits off frames while there is a separator; the result is the frames and the rest. -/
def drain (buffer : List α) : List (List α) × List α :=
  match found : sep.splitFirst buffer with
  | none => ([], buffer)
  | some (frame, rest) =>
      have : rest.length < buffer.length := by
        rw [eq_of_splitFirst found]
        simp [text]
        omega
      let later := drain rest
      (frame :: later.1, later.2)
termination_by buffer.length

theorem drain_none {buffer : List α} (found : sep.splitFirst buffer = none)
    : sep.drain buffer = ([], buffer) := by
  rw [drain]
  split <;> simp_all

theorem drain_some {buffer frame rest : List α}
    (found : sep.splitFirst buffer = some (frame, rest))
    : sep.drain buffer = (frame :: (sep.drain rest).1, (sep.drain rest).2) := by
  rw [drain]
  split <;> simp_all

/-- Draining goes on from the rest when more arrives. Witness: induction on the buffer's
length, frame by frame.
-/
theorem drain_append (buffer more : List α)
    : sep.drain (buffer ++ more)
      = (let now := sep.drain buffer
         let later := sep.drain (now.2 ++ more)
         (now.1 ++ later.1, later.2)) := by
  induction size : buffer.length using Nat.strongRecOn generalizing buffer with
  | ind n ih =>
      cases found : sep.splitFirst buffer with
      | none => rw [drain_none found]; rfl
      | some parts =>
          obtain ⟨frame, rest⟩ := parts
          have shorter : rest.length < n := by
            rw [← size, eq_of_splitFirst found]
            simp [text]
            omega
          rw [drain_some (splitFirst_append found more), drain_some found,
            ih _ shorter rest rfl]
          rfl

/-- Frames written with a separator behind each are drained one by one, by induction. -/
theorem drain_frames {frames : List (List α)} (plain : ∀ frame ∈ frames, sep.first ∉ frame)
    : sep.drain (frames.flatMap (· ++ sep.text)) = (frames, []) := by
  induction frames with
  | nil => exact drain_none rfl
  | cons frame rest ih =>
      rw [List.flatMap_cons, List.append_assoc,
        drain_some (splitFirst_frame (plain frame List.mem_cons_self) _),
        ih fun other member => plain other (List.mem_cons_of_mem _ member)]

variable (sep) in
/-- A reader that buffers each chunk and then drains the buffer: the frames read so far and
the buffer.
-/
def receive (state : List (List α) × List α) (chunk : List α) : List (List α) × List α :=
  let drained := sep.drain (state.2 ++ chunk)
  (state.1 ++ drained.1, drained.2)

/-- However the stream is cut into chunks, the reader reads what draining the whole reads.
Witness: induction on the chunks; the frames so far are what draining the part so far gives.
-/
theorem foldl_receive (sep : Separator α) (chunks : List (List α)) (sofar : List α)
    : chunks.foldl sep.receive (sep.drain sofar) = sep.drain (sofar ++ chunks.flatten) := by
  induction chunks generalizing sofar with
  | nil => simp
  | cons chunk rest ih =>
      have next : sep.receive (sep.drain sofar) chunk = sep.drain (sofar ++ chunk) :=
        (drain_append sofar chunk).symm
      rw [List.foldl_cons, next, ih, List.flatten_cons, List.append_assoc]

end Separator

end Library
