import Guillemot.Library.Extraction
import Guillemot.Trees.Tree

/-!
# Saving and loading a decision tree

`Save` of `DLT.cpp` writes a tree in preorder, a line for each node, and the loading constructors of
the two programs read it back with `operator>>`. No extraction is checked, and the constructor of a
branch calls itself twice whatever the stream says, so loading is bounded by fuel here and ends when
some fuel is enough. The first word decides: `Leaf` or anything else.

`TreeText` are the texts that a whole tree is read from without a failure. The text may also break
off in the number of its last leaf, where no extraction follows that the failure would reach:
`CutText`. These are all the texts on which loading ends (`load_iff`).
-/

namespace Guillemot.Trees

open Guillemot.Extraction

/-- The word in front of a leaf. -/
def leafWord : List Char := ['L', 'e', 'a', 'f']

/-- The word in front of a branch. -/
def branchWord : List Char := ['B', 'r', 'a', 'n', 'c', 'h']

namespace DLT

/-- `Save`. -/
def save : DLT → List Char
  | .leaf splitVal => leafWord ++ ' ' :: (showInt splitVal ++ ['\n'])
  | .branch splitId splitVal lowSide highSide =>
    if splitId = -1 then leafWord ++ ' ' :: (showInt splitVal ++ ['\n'])
    else
      branchWord ++ ' ' :: (showInt splitId ++ ' ' :: (showInt splitVal ++ '\n' :: lowSide.save)) ++
        highSide.save

/-- The loading constructor `DLT::DLT` of the training program. The variables that the extractions
read into hold `uninit` before. -/
def load (uninit : Int32) : ℕ → IStream → Option (DLT × IStream)
  | 0, _ => none
  | fuel + 1, fin =>
    let word := readWord fin
    if word.1 = leafWord then
      let splitVal := readInt uninit word.2
      some (.leaf splitVal.1, splitVal.2)
    else
      let splitId := readInt uninit word.2
      let splitVal := readInt uninit splitId.2
      (load uninit fuel splitVal.2).bind fun lowSide =>
      (load uninit fuel lowSide.2).map fun highSide =>
        (.branch splitId.1 splitVal.1 lowSide.1 highSide.1, highSide.2)

/-- The loading constructor `DLT::DLT` of the image recognition. -/
def loadRecognition (uninit : Int32) : ℕ → IStream → Option (DLT × IStream) := load uninit

/-- `Classify` of the image recognition. -/
def classifyRecognition : DLT → Sample → Option Int32 := classify

end DLT

/-- A stream on a file: one that could not be opened has failed. -/
def openFile : Option (List Char) → IStream
  | some text => ⟨text, false⟩
  | none => ⟨[], true⟩

/-! ## The texts of trees -/

/-- A text that begins with a tree, and what is left of it behind the tree. -/
inductive TreeText : List Char → DLT → List Char → Prop
  | leaf {text rest₁ rest v} (hword : WordText text leafWord rest₁) (hval : IntText rest₁ v rest) :
      TreeText text (.leaf v) rest
  | branch {text word rest₁ rest₂ rest₃ rest₄ rest splitId splitVal lowSide highSide}
      (hword : WordText text word rest₁) (hne : word ≠ leafWord)
      (hid : IntText rest₁ splitId rest₂) (hval : IntText rest₂ splitVal rest₃)
      (hlow : TreeText rest₃ lowSide rest₄) (hhigh : TreeText rest₄ highSide rest) :
      TreeText text (.branch splitId splitVal lowSide highSide) rest

/-- A text that is a tree up to the number of its last leaf, which is not there. -/
inductive CutText (uninit : Int32) : List Char → DLT → Prop
  | leaf {text rest} (hword : WordText text leafWord rest)
      (hval : ∀ v rest', ¬ IntText rest v rest') :
      CutText uninit text (.leaf (readInt uninit ⟨rest, false⟩).1)
  | branch {text word rest₁ rest₂ rest₃ rest₄ splitId splitVal lowSide highSide}
      (hword : WordText text word rest₁) (hne : word ≠ leafWord)
      (hid : IntText rest₁ splitId rest₂) (hval : IntText rest₂ splitVal rest₃)
      (hlow : TreeText rest₃ lowSide rest₄) (hhigh : CutText uninit rest₄ highSide) :
      CutText uninit text (.branch splitId splitVal lowSide highSide)

variable {uninit : Int32}

/-- On a stream that has failed the constructor calls itself for ever. -/
theorem load_fail (fuel : ℕ) (rest : List Char) :
    DLT.load uninit fuel ⟨rest, true⟩ = none := by
  induction fuel with
  | zero => rfl
  | succ fuel ih => simp [DLT.load, leafWord, ih]

variable (uninit) in
/-- A tree is read from the text of one, and what is behind it is left. -/
theorem load_of_treeText {text rest : List Char} {t : DLT} (h : TreeText text t rest) {fuel : ℕ}
    (hfuel : t.height < fuel) :
    DLT.load uninit fuel ⟨text, false⟩ = some (t, ⟨rest, false⟩) := by
  induction h generalizing fuel with
  | leaf hword hval =>
    obtain ⟨fuel, rfl⟩ := Nat.exists_eq_add_one_of_ne_zero (Nat.ne_zero_of_lt hfuel)
    simp [DLT.load, readWord_iff.mpr hword, readInt_iff.mpr hval]
  | branch hword hne hid hval _ _ ihlow ihhigh =>
    obtain ⟨fuel, rfl⟩ := Nat.exists_eq_add_one_of_ne_zero (Nat.ne_zero_of_lt hfuel)
    have hmax := Nat.succ_lt_succ_iff.mp hfuel
    have hlow := ihlow ((Nat.le_max_left _ _).trans_lt hmax)
    have hhigh := ihhigh ((Nat.le_max_right _ _).trans_lt hmax)
    simp [DLT.load, readWord_iff.mpr hword, readInt_iff.mpr hid, readInt_iff.mpr hval, hne, hlow,
      hhigh]

/-- A tree is read from a text that breaks off in its last number, too, on a stream that has failed
then. -/
theorem load_of_cutText {text : List Char} {t : DLT} (h : CutText uninit text t) {fuel : ℕ}
    (hfuel : t.height < fuel) :
    ∃ fin, fin.fail = true ∧ DLT.load uninit fuel ⟨text, false⟩ = some (t, fin) := by
  induction h generalizing fuel with
  | leaf hword hval =>
    obtain ⟨fuel, rfl⟩ := Nat.exists_eq_add_one_of_ne_zero (Nat.ne_zero_of_lt hfuel)
    rcases readInt_cases uninit _ with ⟨v, rest, -, htext⟩ | ⟨v, rest, hread, -⟩
    · exact absurd htext (hval v rest)
    · exact ⟨⟨rest, true⟩, rfl, by simp [DLT.load, readWord_iff.mpr hword, hread]⟩
  | branch hword hne hid hval hlow _ ihhigh =>
    obtain ⟨fuel, rfl⟩ := Nat.exists_eq_add_one_of_ne_zero (Nat.ne_zero_of_lt hfuel)
    have hmax := Nat.succ_lt_succ_iff.mp hfuel
    have hlow := load_of_treeText uninit hlow ((Nat.le_max_left _ _).trans_lt hmax)
    obtain ⟨fin, hfin, hhigh⟩ := ihhigh ((Nat.le_max_right _ _).trans_lt hmax)
    refine ⟨fin, hfin, ?_⟩
    simp [DLT.load, readWord_iff.mpr hword, readInt_iff.mpr hid, readInt_iff.mpr hval, hne, hlow,
      hhigh]

/-- A stream on which a tree is loaded had not failed. -/
theorem not_fail_of_load {fuel : ℕ} {fin : IStream} {result : DLT × IStream}
    (h : DLT.load uninit fuel fin = some result) : fin.fail = false := by
  obtain ⟨rest, fail⟩ := fin
  cases fail with
  | false => rfl
  | true => simp [load_fail] at h


/-- What a tree is loaded from: a text that begins with it, or one that breaks off in its last
number. -/
theorem text_of_load {fuel : ℕ} {text : List Char} {t : DLT} {fin : IStream}
    (h : DLT.load uninit fuel ⟨text, false⟩ = some (t, fin)) :
    (fin.fail = false ∧ TreeText text t fin.rest) ∨ (fin.fail = true ∧ CutText uninit text t) := by
  induction fuel generalizing text t fin with
  | zero => cases h
  | succ fuel ih =>
    rw [DLT.load] at h
    -- without a first word there is a branch, and a stream that has failed
    rcases readWord_cases text with ⟨word, rest₁, hread, hword⟩ | ⟨rest, hread⟩
    swap
    · simp [hread, leafWord, load_fail] at h
    simp only [hread] at h
    split_ifs at h with hleaf
    · subst hleaf
      obtain ⟨rfl, rfl⟩ : DLT.leaf (readInt uninit ⟨rest₁, false⟩).1 = t ∧
          (readInt uninit ⟨rest₁, false⟩).2 = fin := by simpa using h
      rcases readInt_cases uninit rest₁ with ⟨v, rest, hread, hval⟩ | ⟨v, rest, hread, hval⟩
      · rw [hread]
        exact .inl ⟨rfl, .leaf hword hval⟩
      · exact .inr ⟨by rw [hread], .leaf hword hval⟩
    · obtain ⟨⟨lowSide, fin'⟩, hlow, h⟩ := Option.bind_eq_some_iff.mp h
      obtain ⟨⟨highSide, fin''⟩, hhigh, h⟩ := Option.map_eq_some_iff.mp h
      obtain ⟨rfl, rfl⟩ : _ = t ∧ fin'' = fin := by simpa using h
      -- both numbers are there, for else the low side would be read from a failed stream
      rcases readInt_cases uninit rest₁ with ⟨id, rest₂, hreadid, hid⟩ | ⟨id, rest₂, hreadid, -⟩
      swap
      · simp [hreadid, load_fail] at hlow
      rcases readInt_cases uninit rest₂ with ⟨v, rest₃, hreadval, hval⟩ | ⟨v, rest₃, hreadval, -⟩
      swap
      · simp [hreadid, hreadval, load_fail] at hlow
      simp only [hreadid, hreadval] at hlow hhigh ⊢
      obtain ⟨rest₄, fail⟩ := fin'
      have hfail : fail = false := not_fail_of_load hhigh
      subst hfail
      rcases ih hlow with ⟨-, hlow⟩ | ⟨hfail, -⟩
      swap
      · cases hfail
      rcases ih hhigh with ⟨hfail, hhigh⟩ | ⟨hfail, hhigh⟩
      · exact .inl ⟨hfail, .branch hword hleaf hid hval hlow hhigh⟩
      · exact .inr ⟨hfail, .branch hword hleaf hid hval hlow hhigh⟩

/-! ## Saving and loading -/

/-- The trees that a constructor builds with attributes that are not negative: the branches are not
taken for leaves. -/
def DLT.Proper : DLT → Prop
  | .leaf _ => True
  | .branch splitId _ lowSide highSide => 0 ≤ splitId ∧ lowSide.Proper ∧ highSide.Proper

/-- A number of a saved tree, with the character before it and the one behind. -/
theorem intText_field (v : Int32) {c : Char} (hc : c.isDigit = false) (rest : List Char) :
    IntText (' ' :: (showInt v ++ c :: rest)) v (c :: rest) :=
  @intText_showInt v [' '] (c :: rest) (by simp [isSpace]) (by simpa using hc)

/-- What `Save` writes is the text of the tree, whatever follows and whatever white space comes
before. -/
theorem treeText_save {t : DLT} (ht : t.Proper) {space : List Char}
    (hspace : ∀ c ∈ space, isSpace c = true) (trailing : List Char) :
    TreeText (space ++ (t.save ++ trailing)) t ('\n' :: trailing) := by
  induction t generalizing space trailing with
  | leaf v =>
    have htext : (DLT.leaf v).save ++ trailing =
        leafWord ++ ' ' :: (showInt v ++ '\n' :: trailing) := by
      simp [DLT.save]
    rw [htext]
    exact .leaf (wordText_of hspace (by simp [leafWord]) (by simp [leafWord, isSpace])
      (by simp [isSpace]))
      (intText_field v (by decide) trailing)
  | branch splitId splitVal lowSide highSide ihlow ihhigh =>
    obtain ⟨hid, hlow, hhigh⟩ := ht
    have hne : splitId ≠ -1 := by
      rintro rfl
      exact absurd hid (by decide)
    have htext : (DLT.branch splitId splitVal lowSide highSide).save ++ trailing =
        branchWord ++ ' ' :: (showInt splitId ++ ' ' :: (showInt splitVal ++
          '\n' :: (lowSide.save ++ (highSide.save ++ trailing)))) := by
      simp [DLT.save, hne]
    rw [htext]
    -- each subtree leaves the end of its last line to the white space before the next word
    exact .branch (wordText_of hspace (by simp [branchWord]) (by simp [branchWord, isSpace])
      (by simp [isSpace])) (by simp [branchWord, leafWord])
      (intText_field splitId (by decide) _) (intText_field splitVal (by decide) _)
      (@ihlow hlow ['\n'] (by simp [isSpace]) _) (@ihhigh hhigh ['\n'] (by simp [isSpace]) _)

/-- Loading what `Save` writes gives the same tree and leaves exactly what follows, behind the end
of the last line. So it does in both programs, and they give every sample the same class. -/
theorem load_save {t : DLT} (ht : t.Proper) (trailing : List Char) (uninit : Int32) {fuel : ℕ}
    (hfuel : t.height < fuel) :
    DLT.load uninit fuel ⟨t.save ++ trailing, false⟩ = some (t, ⟨'\n' :: trailing, false⟩) ∧
    DLT.loadRecognition uninit fuel ⟨t.save ++ trailing, false⟩ =
      some (t, ⟨'\n' :: trailing, false⟩) ∧
    ∀ s, t.classifyRecognition s = t.classify s :=
  have h := load_of_treeText uninit (treeText_save ht (List.forall_mem_nil _) trailing) hfuel
  ⟨h, h, fun _ => rfl⟩

/-- A branch with a negative value and a second tree behind it. -/
theorem load_save_of_branch :
    DLT.load 0 2 ⟨(DLT.branch 1 (-5) (.leaf 3) (.leaf (-7))).save ++ (DLT.leaf 4).save, false⟩ =
      some (.branch 1 (-5) (.leaf 3) (.leaf (-7)), ⟨'\n' :: (DLT.leaf 4).save, false⟩) :=
  (load_save (t := .branch 1 (-5) (.leaf 3) (.leaf (-7))) ⟨by decide, trivial, trivial⟩
    (DLT.leaf 4).save 0 (by decide)).1

/-! ## Loading anything -/

/-- What a file has to do for the image recognition: its tree is loaded, every branch of it looks at
an attribute that samples have, and every sample gets a class. -/
def Safe (uninit : Int32) (file : Option (List Char)) : Prop :=
  ∃ fuel t fin, DLT.loadRecognition uninit fuel (openFile file) = some (t, fin) ∧ t.AttrsInRange ∧
    ∀ s, (t.classifyRecognition s).isSome

/-- A file is safe exactly when it can be opened and begins with the text of a tree whose attributes
are in range, where only the number of the last leaf may be missing. -/
theorem safe_iff (uninit : Int32) (file : Option (List Char)) :
    Safe uninit file ↔ ∃ text t, file = some text ∧
      ((∃ rest, TreeText text t rest) ∨ CutText uninit text t) ∧ t.AttrsInRange := by
  constructor
  · rintro ⟨fuel, t, fin, hload, hattrs, -⟩
    cases file with
    | none =>
      have hfail := not_fail_of_load hload
      cases hfail
    | some text =>
      refine ⟨text, t, rfl, ?_, hattrs⟩
      rcases text_of_load hload with ⟨-, htext⟩ | ⟨-, htext⟩
      · exact .inl ⟨_, htext⟩
      · exact .inr htext
  · rintro ⟨text, t, rfl, htext, hattrs⟩
    rcases htext with ⟨rest, htext⟩ | htext
    · have hload := load_of_treeText uninit htext (Nat.lt_succ_self _)
      exact ⟨t.height + 1, t, ⟨rest, false⟩, hload, hattrs,
        DLT.classify_isSome hattrs⟩
    · obtain ⟨fin, -, hload⟩ := load_of_cutText htext (Nat.lt_succ_self _)
      exact ⟨t.height + 1, t, fin, hload, hattrs, DLT.classify_isSome hattrs⟩

/-- On an empty file the constructor never ends. -/
theorem empty_not_safe :
    ¬ Safe 0 (some []) ∧ ∀ fuel, DLT.loadRecognition 0 fuel (openFile (some [])) = none := by
  have hnever : ∀ fuel, DLT.loadRecognition 0 fuel (openFile (some [])) = none := by
    intro fuel
    cases fuel with
    | zero => rfl
    | succ fuel =>
      have hread : readWord ⟨[], false⟩ = ([], ⟨[], true⟩) := rfl
      simp [DLT.loadRecognition, openFile, DLT.load, hread, leafWord, load_fail]
  refine ⟨?_, hnever⟩
  rintro ⟨fuel, t, fin, hload, -⟩
  rw [hnever fuel] at hload
  cases hload

end Guillemot.Trees
