/-
# OrcaBlocks.Lib.Path — slash-separated paths, cleaned and joined.

A path is cleaned by going through its components with a stack: empty components and `.` are dropped, `..`
takes the component before it away, or stays where there is none to take and the path is relative.
`joinPath_name` is what programs that keep one directory for each NAME rely on: joining a name (a component
that is not one of the special ones) to a directory puts it behind a text that depends on the directory
alone, so different names give different paths and no path is empty.
-/
import OrcaBlocks.Lib.Text

namespace OrcaBlocks.Lib

/-- One component. The stack holds the components kept so far, the last one first. -/
def cleanStep (rooted : Bool) (stack : List Text) (part : Text) : List Text :=
  if part = [] ∨ part = ascii "." then stack
  else if part = ascii ".." then
    match stack with
    | top :: rest => if top = ascii ".." then part :: stack else rest
    | [] => if rooted then [] else [part]
  else part :: stack

/-- The components that remain, the last one first. -/
def cleanParts (rooted : Bool) (path : Text) : List Text :=
  (path.splitOn 47).foldl (cleanStep rooted) []

/-- `filepath.Clean`. -/
def cleanPath (path : Text) : Text :=
  if path = [] then ascii "."
  else
    let rooted := path.head? = some 47
    let body := [47].intercalate (cleanParts rooted path).reverse
    if rooted then 47 :: body else if body = [] then ascii "." else body

/-- `filepath.Join` of two elements. -/
def joinPath (dir name : Text) : Text :=
  if dir ≠ [] then cleanPath (dir ++ 47 :: name)
  else if name ≠ [] then cleanPath name
  else []

/-- A component that stands for itself. -/
def IsName (name : Text) : Prop := name ≠ [] ∧ name ≠ ascii "." ∧ name ≠ ascii ".." ∧ 47 ∉ name

instance : DecidablePred IsName := fun _ => inferInstanceAs (Decidable (_ ∧ _ ∧ _ ∧ _))

theorem splitOn_append_cons (sep : UInt8) (xs ys : Text) :
    (xs ++ sep :: ys).splitOn sep = xs.splitOn sep ++ ys.splitOn sep := by
  induction xs with
  | nil => rw [List.nil_append, List.splitOn_cons_eq_if_modifyHead, if_pos (beq_self_eq_true sep),
      List.splitOn_nil, List.singleton_append]
  | cons x xs ih =>
    rw [List.cons_append, List.splitOn_cons_eq_if_modifyHead, List.splitOn_cons_eq_if_modifyHead, ih]
    split
    · rfl
    · cases hparts : xs.splitOn sep with
      | nil => exact absurd hparts (List.splitOn_ne_nil sep xs)
      | cons part parts => rfl

theorem splitOn_of_not_mem {sep : UInt8} {xs : Text} (h : sep ∉ xs) : xs.splitOn sep = [xs] := by
  have hone : ([sep].intercalate [xs]).splitOn sep = [xs] :=
    List.splitOn_intercalate sep (by simpa using h) (by simp)
  rwa [List.intercalate_singleton] at hone

theorem cleanStep_name {name : Text} (hname : IsName name) (rooted : Bool) (stack : List Text) :
    cleanStep rooted stack name = name :: stack := by
  obtain ⟨hne, hdot, hdots, -⟩ := hname
  unfold cleanStep
  rw [if_neg (not_or.mpr ⟨hne, hdot⟩), if_neg hdots]

/-- The text a name is put behind. -/
def dirText (dir : Text) : Text :=
  let rooted := dir.head? = some 47
  let parts := (cleanParts rooted dir).reverse
  (if rooted then [47] else []) ++ parts.flatMap fun part => part ++ [47]

theorem intercalate_append_singleton (parts : List Text) (name : Text) :
    [47].intercalate (parts ++ [name]) = (parts.flatMap fun part => part ++ [47]) ++ name := by
  induction parts with
  | nil => rw [List.nil_append, List.intercalate_singleton, List.flatMap_nil, List.nil_append]
  | cons part parts ih =>
    rw [List.cons_append, List.intercalate_cons_of_ne_nil (by simp), ih, List.flatMap_cons]
    simp only [List.append_assoc]

/-- **A name joined to a directory** stands behind a text that depends on the directory alone. -/
theorem joinPath_name (dir : Text) {name : Text} (hname : IsName name) :
    joinPath dir name = dirText dir ++ name := by
  have hstart : ∀ x, (name.head? = some x) → x ≠ 47 := by
    rintro x hx rfl
    exact hname.2.2.2 (List.mem_of_mem_head? hx)
  by_cases hdir : dir = []
  · have hrooted : decide (name.head? = some 47) = false :=
      decide_eq_false fun h => hstart 47 h rfl
    subst hdir
    rw [joinPath, if_neg (by simp), if_pos hname.1, cleanPath, if_neg hname.1]
    simp only [hrooted, cleanParts, splitOn_of_not_mem hname.2.2.2, List.foldl_cons, List.foldl_nil,
      cleanStep_name hname]
    have hempty : dirText [] = [] := by decide
    rw [hempty, List.nil_append, List.reverse_singleton, List.intercalate_singleton,
      if_neg (of_decide_eq_false hrooted), if_neg hname.1]
  · have hhead : (dir ++ 47 :: name).head? = dir.head? := by
      cases dir with
      | nil => exact absurd rfl hdir
      | cons x xs => rfl
    have hparts : ∀ rooted, (cleanParts rooted (dir ++ 47 :: name)).reverse =
        (cleanParts rooted dir).reverse ++ [name] := by
      intro rooted
      rw [cleanParts, splitOn_append_cons, splitOn_of_not_mem hname.2.2.2, List.foldl_append,
        List.foldl_cons, List.foldl_nil, cleanStep_name hname, List.reverse_cons]
      rfl
    rw [joinPath, if_pos hdir, cleanPath, if_neg (by simp), hhead]
    simp only [hparts, intercalate_append_singleton, dirText]
    split
    · simp
    · rw [if_neg (by simp [hname.1]), List.nil_append]

theorem joinPath_ne_nil (dir : Text) {name : Text} (hname : IsName name) : joinPath dir name ≠ [] := by
  rw [joinPath_name dir hname]
  exact List.append_ne_nil_of_right_ne_nil _ hname.1

theorem joinPath_inj {dir name name' : Text} (hname : IsName name) (hname' : IsName name')
    (h : joinPath dir name = joinPath dir name') : name = name' := by
  rw [joinPath_name dir hname, joinPath_name dir hname'] at h
  exact List.append_cancel_left h

example : joinPath (ascii "/tmp/../mnt//orca/./x/..") (ascii "a1") = ascii "/mnt/orca/a1" := by decide

end OrcaBlocks.Lib
