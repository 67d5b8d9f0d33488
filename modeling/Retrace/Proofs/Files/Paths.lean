import Retrace.Files.Tree

/-!
# Paths that are joined

A path is text, and to join a name to it is to write the name behind it, with a slash between them
if there is none yet. What a path leads to is a matter of its names. So this module says what
joining does to the names (`Path.names_join`), to the steps, which are the names that lead anywhere
(`Path.steps_join`), and to a walk along them (`FileTree.walk_join`): one more name at the end, in
all three, whatever the path looked like before. A slash at its end is an empty name, and an empty
path is nothing but one, so neither makes a difference.

This needs a name in the proper sense: one that holds no slash, and is not one of those that a walk
treats in a way of their own (`Path.Proper`).
-/

namespace Retrace
namespace Path

/-! ## Cutting -/

theorem cut_ne_nil (cs : List Char) : cut cs ≠ [] := by
  cases cs with
  | nil => simp [cut]
  | cons c cs =>
    rw [cut]
    split
    · simp
    · split <;> simp

theorem cut_append_slash (cs ds : List Char) : cut (cs ++ '/' :: ds) = cut cs ++ cut ds := by
  induction cs with
  | nil => simp [cut]
  | cons c cs ih =>
    rw [List.cons_append, cut, cut, ih]
    split
    · rfl
    · cases pieces : cut cs with
      | nil => exact absurd pieces (cut_ne_nil cs)
      | cons first more => rfl

theorem cut_of_slashless {cs : List Char} (slashless : '/' ∉ cs) : cut cs = [cs] := by
  induction cs with
  | nil => rfl
  | cons c cs ih =>
    obtain ⟨other, rest⟩ := not_or.1 fun mem => slashless (List.mem_cons.2 mem)
    rw [cut, if_neg (Ne.symm other), ih rest]

/-! ## Joining -/

/-- A name that leads from a directory to what has this name in it. -/
structure Proper (name : String) : Prop where
  slashless : '/' ∉ name.toList
  nonempty : name ≠ ""
  notHere : name ≠ "."
  notUp : name ≠ ".."

variable {name : String}

/-- The new name comes behind the others, of which an empty one at the end is replaced. -/
theorem names_join (p : Path) (slashless : '/' ∉ name.toList) :
    ∃ before, (p.names = before ∨ p.names = before ++ [""]) ∧
      (p.join name).names = before ++ [name] := by
  have alone : (cut name.toList).map String.ofList = [name] := by
    rw [cut_of_slashless slashless]
    simp
  by_cases empty : p.text = ""
  · refine ⟨[], Or.inr ?_, ?_⟩
    · simp [names, empty, cut]
    · simp [names, join, empty, alone]
  by_cases slashed : p.text.toList.getLast? = some '/'
  · obtain ⟨before, split⟩ := List.getLast?_eq_some_iff.1 slashed
    refine ⟨(cut before).map String.ofList, Or.inr ?_, ?_⟩
    · simp [names, split, cut_append_slash, cut]
    · simp [names, join, split, cut_append_slash, alone]
  · refine ⟨p.names, Or.inl rfl, ?_⟩
    simp [names, join, empty, slashed, cut_append_slash, alone]

/-- The names of a path that lead anywhere. -/
def steps (p : Path) : List String := p.names.filter fun name => name ≠ "" && name ≠ "."

theorem steps_join (p : Path) (proper : Proper name) : (p.join name).steps = p.steps ++ [name] := by
  obtain ⟨before, own, joined⟩ := p.names_join proper.slashless
  have leads : [name].filter (fun name => name ≠ "" && name ≠ ".") = [name] := by
    simp [proper.nonempty, proper.notHere]
  rw [steps, steps, joined, List.filter_append, leads]
  rcases own with own | own <;> simp [own]

/-- A path to something below starts where the path started. -/
theorem isAbsolute_join (p : Path) (proper : Proper name) :
    (p.join name).isAbsolute = p.isAbsolute := by
  have first : name.toList.head? ≠ some '/' :=
    fun slash => proper.slashless (List.mem_of_mem_head? slash)
  by_cases empty : p.text = ""
  · simp [isAbsolute, join, empty, first]
  · obtain ⟨c, cs, split⟩ :=
      List.exists_cons_of_ne_nil fun none => empty (String.toList_eq_nil_iff.1 none)
    unfold isAbsolute join
    split <;> simp [split]

theorem steps_foldl_join {below : List String} (proper : ∀ name ∈ below, Proper name) (p : Path) :
    (below.foldl join p).steps = p.steps ++ below := by
  induction below generalizing p with
  | nil => simp
  | cons name below ih =>
    obtain ⟨first, rest⟩ := List.forall_mem_cons.1 proper
    rw [List.foldl_cons, ih rest, steps_join p first, List.append_assoc, List.singleton_append]

theorem isAbsolute_foldl_join {below : List String} (proper : ∀ name ∈ below, Proper name)
    (p : Path) : (below.foldl join p).isAbsolute = p.isAbsolute := by
  induction below generalizing p with
  | nil => rfl
  | cons name below ih =>
    obtain ⟨first, rest⟩ := List.forall_mem_cons.1 proper
    rw [List.foldl_cons, ih rest, isAbsolute_join p first]

end Path

/-! ## Walking -/

namespace FileTree

open Retrace.Path (Proper)

variable {name : String} {below : List String}

/-- An empty name leads nowhere, but only a directory has it. -/
theorem step_step_empty (t : FileTree) (place : Place) (name : String) :
    (t.step place "" >>= fun next => t.step next name) = t.step place name := by
  cases here : t.node? place with
  | none =>
    have stuck (name : String) : t.step place name = .error .notFound := by simp [step, here]
    rw [stuck, stuck]
    rfl
  | some node =>
    cases node with
    | directory =>
      have stays : t.step place "" = .ok place := by simp [step, here]
      rw [stays]
      rfl
    | file | sealedFile =>
      have stuck (name : String) : t.step place name = .error .notADirectory := by simp [step, here]
      rw [stuck, stuck]
      rfl

theorem walk_append (t : FileTree) (place : Place) (first rest : List String) :
    t.walk place (first ++ rest) = t.walk place first >>= fun next => t.walk next rest :=
  List.foldlM_append

theorem walk_join (t : FileTree) (place : Place) (p : Path) (proper : Proper name) :
    t.walk place (p.join name).names = t.walk place p.names >>= fun next => t.step next name := by
  obtain ⟨before, own, joined⟩ := p.names_join proper.slashless
  have single (next : Place) : t.walk next [name] = t.step next name := bind_pure _
  have empty (next : Place) : t.walk next [""] = t.step next "" := bind_pure _
  rw [joined, walk_append]
  simp only [single]
  rcases own with rfl | own
  · rfl
  · rw [own, walk_append, bind_assoc]
    simp only [empty, step_step_empty]

/-- The way to something below a path is the way along the path, and on from there. -/
theorem walk_foldl_join (t : FileTree) (place : Place) (p : Path)
    (proper : ∀ name ∈ below, Proper name) :
    t.walk place (below.foldl Path.join p).names =
      t.walk place p.names >>= fun next => t.walk next below := by
  induction below generalizing p with
  | nil => exact (bind_pure _).symm
  | cons name below ih =>
    obtain ⟨first, rest⟩ := List.forall_mem_cons.1 proper
    rw [List.foldl_cons, ih _ rest, walk_join t place p first, bind_assoc]
    rfl

theorem start_foldl_join (t : FileTree) (p : Path) (proper : ∀ name ∈ below, Proper name) :
    t.start (below.foldl Path.join p) = t.start p := by
  rw [start, start, Path.isAbsolute_foldl_join proper]

/-- A proper name leads down. -/
theorem step_proper {t : FileTree} {place next : Place} (proper : Proper name)
    (went : t.step place name = .ok next) : next = place ++ [name] := by
  unfold step at went
  split at went
  · exact absurd went (by simp)
  · simp only [proper.nonempty, proper.notHere, proper.notUp, or_self, if_false] at went
    split at went
    · exact absurd went (by simp)
    split at went
    · exact (Except.ok.inj went).symm
    · exact absurd went (by simp)
  · exact absurd went (by simp)

theorem walk_proper {t : FileTree} {place next : Place} (proper : ∀ name ∈ below, Proper name)
    (went : t.walk place below = .ok next) : next = place ++ below := by
  induction below generalizing place with
  | nil => rw [List.append_nil]; exact (Except.ok.inj went).symm
  | cons name below ih =>
    obtain ⟨first, rest⟩ := List.forall_mem_cons.1 proper
    unfold walk at went
    rw [List.foldlM_cons] at went
    cases down : t.step place name with
    | error fault => rw [down] at went; exact absurd went (by simp [bind, Except.bind])
    | ok mid =>
      rw [down] at went
      obtain rfl := step_proper first down
      rw [ih rest went, List.append_assoc, List.singleton_append]

end FileTree
end Retrace
