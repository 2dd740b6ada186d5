import Dialogue.Identifier
import Mathlib.Tactic.Common

/-! The text of an identifier and its segments. Every text is found again in the segments that it is split into. The
other way round, segments are lost where one of them holds a separator and where a single one is empty. -/

namespace Dialogue.Identifier

variable {c : Char} {piece cs : List Char} {segment text : String} {segments : List String}

private theorem pieces_ne_nil (cs : List Char) : pieces cs ≠ [] := by
  cases cs with
  | nil => exact List.cons_ne_nil _ _
  | cons c rest =>
    rw [pieces]
    split
    · exact List.cons_ne_nil _ _
    · split <;> exact List.cons_ne_nil _ _

/-- Another character than the separator begins the first piece. -/
private theorem pieces_cons_of_ne (other : c ≠ separator) (rest : List Char) :
    ∃ piece more, pieces rest = piece :: more ∧ pieces (c :: rest) = (c :: piece) :: more := by
  obtain ⟨piece, more, begins⟩ := List.exists_cons_of_ne_nil (pieces_ne_nil rest)
  refine ⟨piece, more, begins, ?_⟩
  rw [pieces, if_neg other, begins]

private theorem pieces_eq_splitOn (cs : List Char) : pieces cs = cs.splitOn separator := by
  induction cs with
  | nil => rfl
  | cons c rest ih =>
    rw [List.splitOn_cons_eq_if_modifyHead, ← ih]
    by_cases same : c = separator
    · rw [pieces, if_pos same, if_pos (beq_iff_eq.mpr same)]
    · obtain ⟨piece, more, begins, longer⟩ := pieces_cons_of_ne same rest
      rw [longer, begins, if_neg (mt beq_iff_eq.mp same), List.modifyHead_cons]

private theorem free_of_mem_pieces (member : piece ∈ pieces cs) : separator ∉ piece := by
  induction cs generalizing piece with
  | nil =>
    rw [List.mem_singleton.mp member]
    exact List.not_mem_nil
  | cons c rest ih =>
    by_cases same : c = separator
    · rw [pieces, if_pos same] at member
      rcases List.mem_cons.mp member with rfl | later
      · exact List.not_mem_nil
      · exact ih later
    · obtain ⟨first, more, begins, longer⟩ := pieces_cons_of_ne same rest
      rw [begins] at ih
      rw [longer] at member
      rcases List.mem_cons.mp member with rfl | later
      · exact List.not_mem_cons_of_ne_of_not_mem (Ne.symm same) (ih List.mem_cons_self)
      · exact ih (List.mem_cons_of_mem _ later)

private theorem join_cons_cons (segment next : String) (more : List String) :
    (join (segment :: next :: more)).toList = segment.toList ++ separator :: (join (next :: more)).toList := by
  simp [join]

private theorem toList_join (segments : List String) :
    (join segments).toList = [separator].intercalate (segments.map String.toList) := by
  induction segments with
  | nil => rfl
  | cons segment more ih =>
    cases more with
    | nil => simp [join]
    | cons next more => simpa [join_cons_cons] using ih

/-- Two segments at least have a separator between them. -/
private theorem join_ne_empty (segment next : String) (more : List String) : join (segment :: next :: more) ≠ "" := by
  intro empty
  have text := join_cons_cons segment next more
  rw [empty] at text
  simp at text

private theorem join_eq_empty_iff : join segments = "" ↔ segments = [] ∨ segments = [""] := by
  constructor
  · intro empty
    match segments with
    | [] => exact .inl rfl
    | [segment] => exact .inr (congrArg (fun only => [only]) empty)
    | segment :: next :: more => exact absurd empty (join_ne_empty segment next more)
  · rintro (rfl | rfl) <;> rfl

private theorem segments_parse (shown : text ≠ "") :
    (parse text).segments = (pieces text.toList).map String.ofList := by
  rw [parse, if_neg (mt String.isEmpty_iff.mp shown)]

private theorem text_parse (text : String) : (parse text).text = text := by
  by_cases shown : text = ""
  · rw [shown]
    rfl
  apply String.toList_inj.mp
  calc (parse text).text.toList
    _ = [separator].intercalate (((pieces text.toList).map String.ofList).map String.toList) := by
      rw [Identifier.text, toList_join, segments_parse shown]
    _ = [separator].intercalate (text.toList.splitOn separator) := by
      simp [Function.comp_def, pieces_eq_splitOn]
    _ = text.toList := List.intercalate_splitOn separator

private theorem free_of_mem_parse (member : segment ∈ (parse text).segments) : separator ∉ segment.toList := by
  by_cases shown : text = ""
  · rw [shown] at member
    cases member
  · rw [segments_parse shown] at member
    obtain ⟨piece, inside, rfl⟩ := List.mem_map.mp member
    rw [String.toList_ofList]
    exact free_of_mem_pieces inside

/-- The only text of a single empty segment is the empty one, which has no segments. -/
private theorem segments_parse_ne (text : String) : (parse text).segments ≠ [""] := by
  intro single
  have empty : text = "" := by
    rw [← text_parse text, Identifier.text, single]
    rfl
  rw [empty] at single
  cases single

/-- Only the single empty segment is lost, because its text is that of no segments. -/
theorem parse_join (several : segments ≠ [""]) (free : ∀ segment ∈ segments, separator ∉ segment.toList) :
    parse (join segments) = ⟨segments⟩ := by
  by_cases none : segments = []
  · rw [none]
    rfl
  have shown : join segments ≠ "" := by
    rw [Ne, join_eq_empty_iff, not_or]
    exact ⟨none, several⟩
  have apart : ∀ piece ∈ segments.map String.toList, separator ∉ piece := List.forall_mem_map.mpr free
  have split := List.splitOn_intercalate separator apart (mt List.map_eq_nil_iff.mp none)
  rw [← toList_join, ← pieces_eq_splitOn] at split
  rw [parse, if_neg (mt String.isEmpty_iff.mp shown), split, List.map_map]
  simp [Function.comp_def]

private theorem foldl_push (id : Identifier) (pushed : List String) :
    pushed.foldl push id = ⟨id.segments ++ pushed⟩ := by
  induction pushed generalizing id with
  | nil => rw [List.foldl_nil, List.append_nil]
  | cons segment pushed ih =>
    rw [List.foldl_cons, ih]
    simp [push]

/-- A text is what its identifier shows. Given segments and those that are pushed after them are read back from what
they are shown as exactly where none of them would be taken apart and they are more than an empty one alone. -/
theorem text_and_segments_correspond (text : String) (given pushed : List String) :
    (parse text).text = text ∧
      ((parse (pushed.foldl push ⟨given⟩).text).segments = given ++ pushed ↔
        (∀ segment ∈ given ++ pushed, separator ∉ segment.toList) ∧ given ++ pushed ≠ [""]) := by
  refine ⟨text_parse text, ?_⟩
  rw [foldl_push]
  constructor
  · intro back
    -- The segments are then some that were read, of whatever text.
    rw [← back]
    exact ⟨fun segment member => free_of_mem_parse member, segments_parse_ne _⟩
  · rintro ⟨free, several⟩
    exact congrArg Identifier.segments (parse_join several free)

example : parse (Identifier.text ⟨["", "a", ""]⟩) = ⟨["", "a", ""]⟩ ∧ parse (Identifier.text ⟨[""]⟩) = ⟨[]⟩ := by decide

end Dialogue.Identifier
