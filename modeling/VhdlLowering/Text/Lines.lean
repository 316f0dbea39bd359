/-!
# Lines of a text

A line ends with a line feed. What stands behind the last line feed of a text is no line, so a text
consists of complete lines if it is put together from its lines again.
-/

namespace VhdlLowering
namespace Text

/-- The lines of a text, without their line feeds. -/
def lines (s : String) : List String := (s.toList.splitOn '\n').dropLast.map String.ofList

/-- Puts a text together from lines. -/
def ofLines (ls : List String) : String := String.join (ls.map (· ++ "\n"))

/-- The number of line feeds in a text. -/
def feeds (s : String) : Nat := s.toList.count '\n'

/-- The number of line feeds in several texts. -/
def feedsOf : List String → Nat
  | [] => 0
  | s :: ss => feeds s + feedsOf ss

theorem toList_ofLines (ls : List String) :
    (ofLines ls).toList = ls.flatMap fun l => l.toList ++ ['\n'] := by
  simp [ofLines, List.flatMap_map]

@[simp] theorem feeds_append (s t : String) : feeds (s ++ t) = feeds s + feeds t := by
  simp [feeds]

theorem feeds_eq_zero_iff {s : String} : feeds s = 0 ↔ '\n' ∉ s.toList := List.count_eq_zero

@[simp] theorem feedsOf_nil : feedsOf [] = 0 := rfl

@[simp] theorem feedsOf_cons (s : String) (ss : List String) :
    feedsOf (s :: ss) = feeds s + feedsOf ss := rfl

@[simp] theorem feedsOf_append (ss ts : List String) :
    feedsOf (ss ++ ts) = feedsOf ss + feedsOf ts := by
  induction ss with
  | nil => simp
  | cons s ss ih => simp [ih, Nat.add_assoc]

theorem feedsOf_eq_zero_iff {ss : List String} : feedsOf ss = 0 ↔ ∀ s ∈ ss, '\n' ∉ s.toList := by
  induction ss with
  | nil => simp
  | cons s ss ih => simp [ih, feeds_eq_zero_iff]

/-- Texts put together with a separator that has no line feed. -/
theorem feeds_intercalate {sep : String} (hsep : feeds sep = 0) (ss : List String) :
    feeds (String.intercalate sep ss) = feedsOf ss := by
  induction ss with
  | nil => simp [feeds]
  | cons s ss ih =>
    by_cases hnil : ss = []
    · simp [hnil]
    · rw [String.intercalate_cons_of_ne_nil hnil, feeds_append, feeds_append, hsep, ih,
        feedsOf_cons, Nat.add_zero]

theorem length_splitOn_feed (cs : List Char) :
    (cs.splitOn '\n').length = cs.count '\n' + 1 := by
  induction cs with
  | nil => simp
  | cons c cs ih =>
    rw [List.splitOn_cons_eq_if_modifyHead]
    by_cases hc : c = '\n'
    · simp [hc, ih]
    · simp [hc, ih]

/-- A text has as many lines as line feeds. -/
theorem length_lines (s : String) : (lines s).length = feeds s := by
  simp [lines, feeds, length_splitOn_feed]

/-- The lines from which a text is put together are its lines. -/
theorem lines_ofLines {ls : List String} (h : ∀ l ∈ ls, '\n' ∉ l.toList) :
    lines (ofLines ls) = ls := by
  have hsplit : (ofLines ls).toList.splitOn '\n' = ls.map String.toList ++ [[]] := by
    rw [toList_ofLines]
    induction ls with
    | nil => simp
    | cons l ls ih =>
      obtain ⟨hl, hls⟩ := List.forall_mem_cons.mp h
      rw [List.flatMap_cons, List.append_assoc, List.singleton_append,
        List.splitOn_append_cons_self_of_not_mem hl, ih hls, List.map_cons, List.cons_append]
  simp [lines, hsplit]

theorem feeds_ofLines (ls : List String) : feeds (ofLines ls) = ls.length + feedsOf ls := by
  rw [feeds, toList_ofLines]
  induction ls with
  | nil => rfl
  | cons l ls ih =>
    have hl : (l.toList ++ ['\n']).count '\n' = feeds l + 1 := by simp [feeds]
    rw [List.flatMap_cons, List.count_append, ih, hl, List.length_cons, feedsOf_cons]
    omega

end Text
end VhdlLowering
