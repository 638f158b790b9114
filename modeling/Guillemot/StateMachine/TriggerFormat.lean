import Mathlib.Data.List.TakeWhile
import Guillemot.Library.Keyed
import Guillemot.StateMachine.Loading

/-!
# The format of triggers

A line of a section `Triggers` has the form `Channel Type op value triggers action arg...`, with one
of five operators (`Says`). The operator `'>'` is also the character that ends the name of a
section, and a piece of a file with two of them does not count as a section: all triggers of such a
section are lost. A line that begins with `'<'` begins a piece of its own and is lost too.

`triggers_loaded_iff` says that these are the only ways to lose a trigger: the lines of a file of
sections are loaded, in order and with the fields that they say, if and only if none of those in
sections `Triggers` has a `'>'` in it or begins with `'<'`.
-/

namespace Guillemot.StateMachine

variable {F : Type} [PythonFloat F]

/-! ## Documented lines -/

/-- The operators that the format has. -/
def operators : List Text := ["<", ">", "=", "~", "any"].map String.toList

/-- The value that a text says for a type. -/
inductive Parses : Text → Text → Value F → Prop
  | int {value : Text} {n : ℤ} (h : parseInt value = some n) :
    Parses "int".toList value (.int n)
  | float {value : Text} {x : F} (h : ofText value = some x) :
    Parses "float".toList value (.float x)
  | img {value : Text} : Parses "img".toList value .img
  | other {ttype value : Text} (h : ttype ∉ ["int", "float", "img"].map String.toList) :
    Parses ttype value (.str value)

/-- A line has the documented form, and says the trigger. -/
structure Says (Class line : Text) (t : Trigger F) : Prop where
  mClassName : t.mClassName = Class
  fields : ∃ value, Parses t.mType value t.mValue ∧
    words line = t.mTopic :: t.mType :: t.mOp :: value :: "triggers".toList ::
      t.mEffect.etype :: t.mEffect.arguments
  arguments : t.mEffect.arguments ≠ []
  operator : t.mOp ∈ operators

theorem parseValue_of_parses {ttype value : Text} {v : Value F} (h : Parses ttype value v) :
    parseValue ttype value = .ok v := by
  unfold parseValue
  cases h with
  | int h => rw [if_pos rfl, h]
  | float h => rw [if_neg (by decide), if_pos rfl, h]
  | img => rw [if_neg (by decide), if_neg (by decide), if_pos rfl]
  | other h =>
    simp only [List.map_cons, List.map_nil, List.mem_cons, List.not_mem_nil, or_false,
      not_or] at h
    rw [if_neg h.1, if_neg h.2.1, if_neg h.2.2]

/-- A blank line has only white space in it. -/
theorem forall_isSpace {line : Text} (h : strip line = []) : ∀ c ∈ line, isSpace c = true := by
  have hdrop : line.dropWhile isSpace = [] := by
    by_contra hne
    -- What is left begins with a character that is not white space, and keeps it.
    obtain ⟨c, rest, hcons⟩ := List.exists_cons_of_ne_nil hne
    have hc : isSpace c = false := by
      have := List.head_dropWhile_not isSpace hne
      simpa [hcons] using this
    rw [strip, List.reverse_eq_nil_iff, List.dropWhile_eq_nil_iff] at h
    have := h c (by rw [hcons]; simp)
    rw [hc] at this
    cases this
  exact List.dropWhile_eq_nil_iff.mp hdrop

/-- A blank line has no words. -/
theorem words_of_strip {line : Text} (h : strip line = []) : words line = [] := by
  rw [words, List.filter_eq_nil_iff]
  intro piece hpiece
  simp [Splitting.splitOnP_of_forall (forall_isSpace h) piece hpiece]

/-- A line of the documented form is read as the trigger that it says. -/
theorem readTrigger_of_says {Class line : Text} {t : Trigger F} (h : Says Class line t) :
    readTrigger Class line = .ok (some t) := by
  obtain ⟨value, hparses, hwords⟩ := h.fields
  obtain ⟨arg, args, hargs⟩ := List.exists_cons_of_ne_nil h.arguments
  -- A line with words in it is not blank.
  have hline : strip line ≠ [] := fun hblank => by
    rw [words_of_strip hblank] at hwords
    cases hwords
  rw [hargs] at hwords
  rw [readTrigger, if_neg hline, hwords]
  simp only [ne_eq, not_true, if_false, Trigger.make, parseValue_of_parses hparses]
  rw [← hargs, ← h.mClassName]

/-! ## Files of sections -/

/-- A section as it is written: a line `<name>` and the lines below it. A line that begins with
`<Triggers>` opens a section, so that there is none below the name of another one. -/
structure Part where
  name : Text
  body : List Text
  name_ok : '\n' ∉ name ∧ '>' ∉ name
  body_ok : ∀ line ∈ body, '\n' ∉ line
  foreign : name ≠ "Triggers".toList → ∀ line ∈ body, ¬ "<Triggers>".toList <+: line

/-- The lines of a section, with the one that opens it. -/
def Part.allLines (part : Part) : List Text := ('<' :: (part.name ++ ['>'])) :: part.body

/-- The text of a file, with a newline before every line. -/
def fileText (parts : List Part) : Text := (parts.flatMap Part.allLines).flatMap ('\n' :: ·)

/-- The lines of a section `Triggers` that are not blank. -/
def Part.triggerLines (part : Part) : List Text :=
  if part.name = "Triggers".toList then part.body.filter (strip · ≠ []) else []

/-- The lines of the sections `Triggers` that are not blank. -/
def triggerLines (parts : List Part) : List Text := parts.flatMap Part.triggerLines

/-- The lines before the first that begins with `'<'`. -/
def Part.kept (part : Part) : List Text := part.body.takeWhile (·.head? ≠ some '<')

/-- The lines of the pieces that count as sections `Triggers`. -/
def pieceLines (pieces : List Text) : List Text :=
  (pieces.filterMap readSection).flatMap fun (name, data) =>
    if name = "Triggers".toList then lines data else []

theorem readSection_eq_some_iff {piece name data : Text} :
    readSection piece = some (name, data) ↔
      piece = name ++ '>' :: data ∧ '>' ∉ name ∧ '>' ∉ data := by
  rw [← Splitting.splitOn_eq_pair_iff, readSection]
  split
  · rename_i left right hsplit
    simp [hsplit]
  · rename_i hnot
    constructor
    · intro h
      cases h
    · intro h
      exact absurd h (hnot name data)

theorem pieceLines_append (pieces pieces' : List Text) :
    pieceLines (pieces ++ pieces') = pieceLines pieces ++ pieceLines pieces' := by
  rw [pieceLines, List.filterMap_append, List.flatMap_append]
  rfl

/-- Only pieces that begin with the name of the section have lines that are loaded. -/
theorem pieceLines_eq_nil {pieces : List Text}
    (h : ∀ piece ∈ pieces, ¬ "Triggers>".toList <+: piece) : pieceLines pieces = [] := by
  rw [pieceLines, List.flatMap_eq_nil_iff]
  rintro ⟨name, data⟩ hmem
  obtain ⟨piece, hpiece, hread⟩ := List.mem_filterMap.mp hmem
  obtain ⟨rfl, -⟩ := readSection_eq_some_iff.mp hread
  by_cases hname : name = "Triggers".toList
  · subst hname
    exact absurd ⟨data, by simp⟩ (h _ hpiece)
  · simp only [hname, if_false]

/-- The lines that are loaded have no `'>'` in them. -/
theorem notMem_of_mem_pieceLines {pieces : List Text} {line : Text}
    (h : line ∈ pieceLines pieces) : '>' ∉ line := by
  obtain ⟨⟨name, data⟩, hmem, hline⟩ := List.mem_flatMap.mp h
  obtain ⟨piece, -, hread⟩ := List.mem_filterMap.mp hmem
  obtain ⟨-, -, hdata⟩ := readSection_eq_some_iff.mp hread
  by_cases hname : name = "Triggers".toList
  · simp only [hname, if_true] at hline
    rw [lines, List.splitOn_eq_splitOnP] at hline
    exact fun hgt => hdata (Splitting.mem_of_mem_splitOnP hline hgt)
  · simp only [hname, if_false] at hline
    cases hline

/-- The pieces that a section is cut into. -/
def Part.pieces (part : Part) : List Text :=
  Splitting.groups '\n' '<' (part.name ++ ['>']) part.body

/-- The file is cut into the pieces of its sections. -/
theorem sectionLines_fileText (parts : List Part) :
    sectionLines "Triggers" (fileText parts) =
      parts.flatMap fun part => pieceLines part.pieces := by
  have hlines : ∀ line ∈ parts.flatMap Part.allLines, '\n' ∉ line := by
    intro line hline
    obtain ⟨part, -, hmem⟩ := List.mem_flatMap.mp hline
    rcases List.mem_cons.mp hmem with rfl | hmem
    · simp [part.name_ok.1]
    · exact part.body_ok line hmem
  -- The text is cut before each line that begins with `'<'`.
  have hsplit : Splitting.split "\n<".toList (fileText parts) =
      Splitting.groups '\n' '<' [] (parts.flatMap Part.allLines) := by
    refine Splitting.split_lines (by decide) _ hlines [] ?_
    exact Splitting.not_infix_pair List.not_mem_nil
  -- A line that opens a section begins a piece, so that the sections are cut one by one.
  have hgroups : ∀ (parts : List Part) (piece : Text) (ls : List Text),
      Splitting.groups '\n' '<' piece (ls ++ parts.flatMap Part.allLines) =
        Splitting.groups '\n' '<' piece ls ++ parts.flatMap Part.pieces := by
    intro parts
    induction parts with
    | nil => simp
    | cons part parts ih =>
      intro piece ls
      rw [List.flatMap_cons, Part.allLines, List.cons_append, Splitting.groups_append, ih,
        List.flatMap_cons]
      rfl
  have hpieces : ∀ parts : List Part,
      pieceLines (parts.flatMap Part.pieces) =
        parts.flatMap fun part => pieceLines part.pieces := by
    intro parts
    induction parts with
    | nil => rfl
    | cons part parts ih => rw [List.flatMap_cons, pieceLines_append, ih, List.flatMap_cons]
  have hnil := hgroups parts [] []
  rw [List.nil_append] at hnil
  rw [sectionLines, sections, hsplit, hnil]
  change pieceLines ([[]] ++ parts.flatMap Part.pieces) = _
  rw [pieceLines_append, hpieces]
  rfl

theorem kept_head {part : Part} {line : Text} (h : line ∈ part.kept) : line.head? ≠ some '<' := by
  simpa using List.mem_takeWhile_imp h

/-- Behind the first line that begins with `'<'` nothing is loaded. -/
theorem pieceLines_pieces {part : Part}
    (h : ∀ line ∈ part.body, ¬ "<Triggers>".toList <+: line) :
    pieceLines part.pieces =
      pieceLines [part.name ++ '>' :: part.kept.flatMap ('\n' :: ·)] := by
  have hfirst : Splitting.groups '\n' '<' (part.name ++ ['>']) part.kept =
      [part.name ++ '>' :: part.kept.flatMap ('\n' :: ·)] := by
    rw [Splitting.groups_of_forall fun line hline => kept_head hline, List.append_assoc,
      List.singleton_append]
  have hbody : part.kept ++ part.body.dropWhile (·.head? ≠ some '<') = part.body :=
    List.takeWhile_append_dropWhile
  rw [Part.pieces, ← hbody]
  cases hdrop : part.body.dropWhile (·.head? ≠ some '<') with
  | nil => rw [List.append_nil, hfirst]
  | cons line rest =>
    have hhead : line.head? = some '<' := by
      have := List.head?_dropWhile_not (fun line : Text => line.head? ≠ some '<') part.body
      rw [hdrop] at this
      simpa using this
    -- The pieces behind that line begin with what some line of the section has behind a `'<'`.
    obtain ⟨tail, rfl⟩ : ∃ tail, line = '<' :: tail := List.head?_eq_some_iff.mp hhead
    rw [Splitting.groups_append, pieceLines_append, hfirst, List.append_right_eq_self]
    refine pieceLines_eq_nil fun piece hpiece hstarts => ?_
    obtain ⟨head, ks, rfl, hcases⟩ := Splitting.mem_groups hpiece
    have hmem : '<' :: head ∈ part.body := by
      rw [← hbody, hdrop]
      refine List.mem_append_right _ ?_
      rcases hcases with rfl | hrest
      · exact List.mem_cons_self
      · exact List.mem_cons_of_mem _ hrest
    have hhead' : "Triggers>".toList <+: head :=
      Splitting.prefix_of_prefix_lines (by decide) hstarts
    exact h _ hmem (List.cons_prefix_cons.mpr ⟨rfl, hhead'⟩)

/-- The lines of a section that are loaded, but for blank ones: those before the first that begins
with `'<'`, unless one of these has a `'>'` in it. -/
theorem filter_pieceLines {part : Part}
    (h : ∀ line ∈ part.body, ¬ "<Triggers>".toList <+: line) :
    (pieceLines part.pieces).filter (strip · ≠ []) =
      if part.name = "Triggers".toList ∧ ∀ line ∈ part.kept, '>' ∉ line then
        part.kept.filter (strip · ≠ [])
      else [] := by
  have hnewline : ∀ line ∈ part.kept, '\n' ∉ line := fun line hline =>
    part.body_ok line ((List.takeWhile_prefix _).subset hline)
  have hdata : '>' ∈ part.kept.flatMap ('\n' :: ·) ↔ ¬ ∀ line ∈ part.kept, '>' ∉ line := by
    simp [List.mem_flatMap]
  rw [pieceLines_pieces h]
  split_ifs with hgood
  -- The only `'>'` of the piece is the one behind the name.
  · obtain ⟨hname, hgt⟩ := hgood
    have hread : readSection (part.name ++ '>' :: part.kept.flatMap ('\n' :: ·)) =
        some (part.name, part.kept.flatMap ('\n' :: ·)) :=
      readSection_eq_some_iff.mpr ⟨rfl, part.name_ok.2, fun hmem => hdata.mp hmem hgt⟩
    have hlines : lines (part.kept.flatMap ('\n' :: ·)) = [] :: part.kept :=
      Splitting.splitOn_lines hnewline
    have hblank : strip [] = [] := rfl
    rw [pieceLines, List.filterMap_cons_some hread, List.filterMap_nil, List.flatMap_singleton]
    simp only [hname, if_true]
    rw [hlines, List.filter_cons_of_neg (by simp [hblank])]
  · -- Two `'>'`, or a section with another name.
    rw [List.filter_eq_nil_iff]
    intro line hline
    obtain ⟨⟨name, data⟩, hmem, hin⟩ := List.mem_flatMap.mp hline
    obtain ⟨piece, hpiece, hread⟩ := List.mem_filterMap.mp hmem
    obtain rfl := List.mem_singleton.mp hpiece
    obtain ⟨heq, hnot, hnot'⟩ := readSection_eq_some_iff.mp hread
    obtain ⟨rfl, -, rfl⟩ := (List.append_cons_inj_of_notMem hnot hnot').mp heq.symm
    by_cases hname : part.name = "Triggers".toList
    · exact absurd ⟨hname, by_contra fun hgt => hnot' (hdata.mpr hgt)⟩ hgood
    · simp only [hname, if_false] at hin
      cases hin

/-! ## What is loaded -/

/-- The lines of a section that are loaded, but for blank ones. -/
def Part.loaded (part : Part) : List Text := (pieceLines part.pieces).filter (strip · ≠ [])

theorem Part.loaded_sublist {part : Part}
    (h : ∀ line ∈ part.body, ¬ "<Triggers>".toList <+: line) :
    part.loaded.Sublist part.triggerLines := by
  rw [loaded, filter_pieceLines h, triggerLines]
  split_ifs with hgood hname hname
  · exact (List.takeWhile_prefix _).sublist.filter _
  · exact absurd hgood.1 hname
  · exact List.nil_sublist _
  · exact List.nil_sublist _

/-- Where nothing is lost, the lines have no `'>'` and do not begin with `'<'`. -/
theorem Part.good_of_loaded {part : Part}
    (h : ∀ line ∈ part.body, ¬ "<Triggers>".toList <+: line)
    (heq : part.loaded = part.triggerLines) :
    ∀ line ∈ part.triggerLines, '>' ∉ line ∧ line.head? ≠ some '<' := by
  intro line hline
  rw [← heq, loaded, filter_pieceLines h] at hline
  split_ifs at hline with hgood
  · have hkept := (List.mem_filter.mp hline).1
    exact ⟨hgood.2 line hkept, kept_head hkept⟩
  · cases hline

/-- Lines without a `'>'` that do not begin with `'<'` are all loaded. -/
theorem Part.loaded_of_good {part : Part}
    (h : ∀ line ∈ part.triggerLines, '>' ∉ line ∧ line.head? ≠ some '<') :
    part.loaded = part.triggerLines := by
  by_cases hname : part.name = "Triggers".toList
  · have hbody : ∀ line ∈ part.body, '>' ∉ line ∧ line.head? ≠ some '<' := by
      intro line hline
      by_cases hblank : strip line = []
      · -- White space is neither of the two.
        have hspace := forall_isSpace hblank
        refine ⟨fun hgt => absurd (hspace _ hgt) (by decide), fun hlt => ?_⟩
        exact absurd (hspace _ (List.mem_of_mem_head? hlt)) (by decide)
      · refine h line ?_
        rw [triggerLines, if_pos hname]
        exact List.mem_filter.mpr ⟨hline, by simpa using hblank⟩
    have hkept : part.kept = part.body :=
      List.takeWhile_eq_self_iff.mpr fun line hline => by simpa using (hbody line hline).2
    have hopen : ∀ line ∈ part.body, ¬ "<Triggers>".toList <+: line := by
      rintro line hline ⟨rest, rfl⟩
      exact (hbody _ hline).2 rfl
    rw [loaded, filter_pieceLines hopen, triggerLines, if_pos hname, hkept,
      if_pos ⟨hname, fun line hline => (hbody line hline).1⟩]
  · rw [loaded, filter_pieceLines (part.foreign hname), triggerLines, if_neg hname,
      if_neg fun hgood => hname hgood.1]

/-- The first word of a line that begins with `<Triggers>` has a `'>'` in it. -/
theorem gt_mem_of_opening {line first : Text} {rest : List Text}
    (h : "<Triggers>".toList <+: line) (hwords : words line = first :: rest) : '>' ∈ first := by
  obtain ⟨tail, rfl⟩ := h
  obtain ⟨g, gs, hsplit⟩ := Splitting.splitOnP_append_of_forall (p := isSpace)
    (w := "<Triggers>".toList) (by simp [isSpace]) tail
  rw [words, hsplit, List.filter_cons_of_pos (by simp)] at hwords
  obtain ⟨rfl, -⟩ := List.cons.inj hwords
  exact List.mem_append_left g (by decide)

/-- The triggers of the lines that are loaded. -/
theorem readTriggers_fileText {files : Files} {Class : Text} {parts : List Part}
    (hfile : openClassFile files Class = fileText parts) :
    (readTriggers files Class : List (Trigger F) × Option Raised) =
      Raising.collect (readTrigger Class) (parts.flatMap Part.loaded) := by
  have hloaded : (sectionLines "Triggers" (fileText parts)).filter (strip · ≠ []) =
      parts.flatMap Part.loaded := by
    rw [sectionLines_fileText, List.filter_flatMap]
    rfl
  rw [readTriggers, hfile, ← hloaded, Raising.collect_filter]
  intro line hline
  exact readTrigger_blank (by simpa using hline)

omit [PythonFloat F] in
/-- A line that begins with `<Triggers>` can only be one of a section of triggers. -/
theorem mem_triggerLines_of_opening {parts : List Part} {part : Part} (hpart : part ∈ parts)
    {line : Text} (hline : line ∈ part.body) (hopening : "<Triggers>".toList <+: line) :
    line ∈ triggerLines parts := by
  have hname : part.name = "Triggers".toList :=
    by_contra fun hname => part.foreign hname line hline hopening
  have hblank : strip line ≠ [] := fun hblank =>
    absurd (forall_isSpace hblank '<' (hopening.subset (by decide))) (by decide)
  refine List.mem_flatMap.mpr ⟨part, hpart, ?_⟩
  rw [Part.triggerLines, if_pos hname]
  exact List.mem_filter.mpr ⟨hline, by simpa using hblank⟩

/-- The topic of a trigger that is registered has no `'>'` in it. -/
theorem notMem_topic {files : Files} {Class : Text} {parts : List Part}
    (hfile : openClassFile files Class = fileText parts) {t : Trigger F}
    (ht : t ∈ triggersOf files Class) : '>' ∉ t.mTopic := by
  rw [triggersOf, readTriggers_fileText hfile] at ht
  obtain ⟨line, hline, hread⟩ := Raising.mem_collect ht
  obtain ⟨part, -, hmem⟩ := List.mem_flatMap.mp hline
  have hgt := notMem_of_mem_pieceLines (List.mem_of_mem_filter hmem)
  have hword := List.mem_of_mem_filter (readTrigger_fields hread).2
  exact fun h => hgt (Splitting.mem_of_mem_splitOnP hword h)

/-- The triggers of a file of documented form are all registered, in order and on the listeners of
their topics, if and only if no line of a section `Triggers` has a `'>'` in it or begins with
`'<'`. -/
theorem triggers_loaded_iff (world : World F) (Class : Text) (parts : List Part)
    (hfile : openClassFile world.files Class = fileText parts) (expected : List (Trigger F))
    (hlines : List.Forall₂ (Says Class) (triggerLines parts) expected) (m : Machine F) :
    (∃ m', addTriggers world Class m = .ok () m' ∧
        ∀ topic, m'.active topic = m.active topic ++ expected.filter (·.mTopic = topic)) ↔
      ∀ line ∈ triggerLines parts, '>' ∉ line ∧ line.head? ≠ some '<' := by
  have hread := hlines.imp fun _ _ h => readTrigger_of_says h
  constructor
  · rintro ⟨m', hrun, hactive⟩
    have hregistered : ∀ topic, (triggersOf world.files Class).filter (·.mTopic = topic) =
        expected.filter (·.mTopic = topic) := by
      intro topic
      have hm' := (Raising.final_of_ok hrun).symm.trans (final_addTriggers Class m)
      have hmore := hactive topic
      rwa [hm', active_foldl_appendTrigger, List.append_cancel_left_eq] at hmore
    have hopen : ∀ part ∈ parts, ∀ line ∈ part.body, ¬ "<Triggers>".toList <+: line := by
      intro part hpart line hline hopening
      -- The trigger of such a line has a `'>'` in its topic, so that it cannot be registered.
      have hmem := mem_triggerLines_of_opening hpart hline hopening
      obtain ⟨t, ht, hsaid⟩ := Keyed.exists_of_forall₂ hlines hmem
      obtain ⟨value, -, hwords⟩ := hsaid.fields
      have hgt := gt_mem_of_opening hopening hwords
      have hfound : t ∈ (triggersOf world.files Class).filter (·.mTopic = t.mTopic) := by
        rw [hregistered]
        exact List.mem_filter.mpr ⟨ht, by simp⟩
      exact notMem_topic hfile (List.mem_of_mem_filter hfound) hgt
    -- The lines that are loaded are some of the lines, with their triggers.
    have hsub : (parts.flatMap Part.loaded).Sublist (triggerLines parts) :=
      Keyed.sublist_flatMap fun part hpart => Part.loaded_sublist (hopen part hpart)
    obtain ⟨ts, hts, htsread⟩ := Keyed.forall₂_of_sublist hsub hread
    have htriggers : triggersOf world.files Class = ts := by
      rw [triggersOf, readTriggers_fileText hfile, Raising.collect_of_forall₂ htsread]
    -- On every listener these are all of them, so that none is missing.
    have hperm : ts.Perm expected :=
      Keyed.perm_of_filter_eq fun topic => by rw [← htriggers, hregistered topic]
    have hall : parts.flatMap Part.loaded = triggerLines parts := by
      refine hsub.eq_of_length ?_
      rw [htsread.length_eq, hread.length_eq, hperm.length_eq]
    intro line hline
    obtain ⟨part, hpart, hmem⟩ := List.mem_flatMap.mp hline
    have heq := Keyed.eq_of_flatMap_eq
      (fun part hpart => Part.loaded_sublist (hopen part hpart)) hall part hpart
    exact Part.good_of_loaded (hopen part hpart) heq line hmem
  · intro hgood
    have hall : parts.flatMap Part.loaded = triggerLines parts :=
      List.flatMap_congr fun part hpart => Part.loaded_of_good fun line hline =>
        hgood line (List.mem_flatMap.mpr ⟨part, hpart, hline⟩)
    have htriggers : (readTriggers world.files Class : List (Trigger F) × Option Raised) =
        (expected, none) := by
      rw [readTriggers_fileText hfile, hall, Raising.collect_of_forall₂ hread]
    refine ⟨expected.foldl Machine.appendTrigger m, ?_, fun topic => ?_⟩
    · rw [addTriggers_apply, htriggers]
      rfl
    · exact active_foldl_appendTrigger expected m topic

/-- A section of triggers with one line. -/
def oneLine (line : Text) (h : '\n' ∉ line) : Part where
  name := "Triggers".toList
  body := [line]
  name_ok := by decide
  body_ok := fun _ hmem => List.mem_singleton.mp hmem ▸ h
  foreign := fun hname => absurd rfl hname

/-- The trigger that keeps the depth on one side of 13. -/
def depthTrigger (op : String) : Trigger ℚ where
  mClassName := "Safety".toList
  mTopic := "/Sub_Depth".toList
  mType := "float".toList
  mOp := op.toList
  mValue := .float 13
  mEffect := ⟨"transition".toList, ["Surface".toList]⟩

/-- Sections with a limit for the depth from above, and from below. -/
def deeper : Part := oneLine "/Sub_Depth float > 13 triggers transition Surface".toList (by decide)

def shallower : Part :=
  oneLine "/Sub_Depth float < 13 triggers transition Surface".toList (by decide)

theorem says_deeper :
    List.Forall₂ (Says "Safety".toList) (triggerLines [deeper]) [depthTrigger ">"] :=
  .cons ⟨rfl, ⟨"13".toList, .float (by decide), by decide⟩, by decide, by decide⟩ .nil

theorem says_shallower :
    List.Forall₂ (Says "Safety".toList) (triggerLines [shallower]) [depthTrigger "<"] :=
  .cons ⟨rfl, ⟨"13".toList, .float (by decide), by decide⟩, by decide, by decide⟩ .nil

/-- A trigger with the operator `'<'` is loaded. -/
theorem shallower_loaded : ∃ m',
    addTriggers (World.reliable [("Safety".toList, fileText [shallower])]) "Safety".toList
        Machine.initial = .ok () m' ∧
      ∀ topic, m'.active topic =
        Machine.initial.active topic ++ [depthTrigger "<"].filter (·.mTopic = topic) :=
  (triggers_loaded_iff (World.reliable [("Safety".toList, fileText [shallower])]) "Safety".toList
    [shallower] (by decide) [depthTrigger "<"] says_shallower Machine.initial).mpr (by decide)

/-- The same trigger with the operator `'>'` is not loaded, although its line has the documented
form. -/
theorem deeper_lost :
    openClassFile [("Safety".toList, fileText [deeper])] "Safety".toList = fileText [deeper] ∧
      List.Forall₂ (Says "Safety".toList) (triggerLines [deeper]) [depthTrigger ">"] ∧
      ¬ ∃ m',
        addTriggers (World.reliable [("Safety".toList, fileText [deeper])]) "Safety".toList
            Machine.initial = .ok () m' ∧
          ∀ topic, m'.active topic =
            Machine.initial.active topic ++ [depthTrigger ">"].filter (·.mTopic = topic) := by
  refine ⟨by decide, says_deeper, ?_⟩
  rintro ⟨m', hrun, hactive⟩
  have hread : (readTriggers [("Safety".toList, fileText [deeper])] "Safety".toList :
      List (Trigger ℚ) × Option Raised) = ([], none) := by decide +kernel
  rw [addTriggers_apply, World.reliable, hread] at hrun
  obtain rfl : Machine.initial = m' := by
    cases hrun
    rfl
  exact absurd (hactive "/Sub_Depth".toList) (by decide)

end Guillemot.StateMachine
