import Guillemot.Library.Steps
import Mathlib.Algebra.BigOperators.Fin
import Mathlib.Algebra.Order.BigOperators.Group.Finset
import Mathlib.Data.Fintype.EquivFin
import Mathlib.Data.List.Nodup
import Mathlib.Data.List.Perm.Subperm

/-!
# The process of all nodes

The loop of `core.py` that starts a thread for each entry of `NODES`. What a thread runs is a lambda
that reads the global variable `node` when it is called, and the loop assigns this variable in every
round: a thread that is late runs the class of a later round. `starts_once_iff` says which
interleavings start every node once. The `name` of an entry only names its thread, and is left out.
-/

namespace Guillemot.Roslite

open Steps

/-! ## The loop and its threads -/

/-- The process: the entries that the loop still has to come to, the global variable, whether the
round is between its assignment and its `thread.start()`, and the threads, each with the class that
it has read. -/
structure Process (κ : Type) where
  rest : List κ
  node : Option κ
  inRound : Bool
  threads : List (Option κ)
deriving DecidableEq, Repr

/-- The start. -/
def Process.init {κ : Type} (nodes : List κ) : Process κ := ⟨nodes, none, false, []⟩

/-- What can happen. -/
inductive Turn where
  /-- The loop assigns `node`. -/
  | assign
  /-- The loop starts a thread. -/
  | start
  /-- A thread reads `node`, and runs an instance of it. -/
  | read (i : ℕ)
deriving DecidableEq, Repr

variable {κ : Type}

/-- One step; `none` where it cannot happen. -/
def Process.step (s : Process κ) : Turn → Option (Process κ)
  | .assign =>
    match s.inRound, s.rest with
    | false, node :: rest => some { s with rest := rest, node := some node, inRound := true }
    | _, _ => none
  | .start =>
    if s.inRound then some { s with inRound := false, threads := s.threads ++ [none] } else none
  | .read i =>
    match s.threads[i]? with
    | some none => some { s with threads := s.threads.set i s.node }
    | _ => none

/-- The loop has ended, and every thread has read `node`. -/
def Process.Complete (s : Process κ) : Prop :=
  s.rest = [] ∧ s.inRound = false ∧ none ∉ s.threads

/-- A thread reads `node` before the loop assigns it again. -/
def Prompt (s : Process κ) : Turn → Prop
  | .read i => s.threads.length = i + 1 ∧ s.inRound = false
  | _ => True

instance (s : Process κ) (a : Turn) : Decidable (Prompt s a) := by
  cases a <;> unfold Prompt <;> infer_instance

/-- A run from the start. -/
def runs (nodes : List κ) (turns : List Turn) : Option (Process κ) :=
  run Process.step (fun _ _ => True) turns (.init nodes)

/-- A run from the start in which all threads are prompt. -/
def runsPromptly (nodes : List κ) (turns : List Turn) : Option (Process κ) :=
  run Process.step Prompt turns (.init nodes)

/-! ## What the threads have read -/

/-- How often `node` has been assigned. -/
def Process.assigned (s : Process κ) : ℕ := s.threads.length + s.inRound.toNat

/-- Every thread that has read `node` has read the entry of its own round or of a later one. -/
structure Started (nodes : List κ) (s : Process κ) : Prop where
  le : s.assigned ≤ nodes.length
  rest : s.rest = nodes.drop s.assigned
  node : 0 < s.assigned → s.node = nodes[s.assigned - 1]?
  threads : ∀ (i : ℕ) c, s.threads[i]? = some (some c) →
    ∃ j, i ≤ j ∧ j < s.assigned ∧ nodes[j]? = some c

/-- Every thread that has read `node` has read the entry of its own round. -/
def Matched (nodes : List κ) (s : Process κ) : Prop :=
  ∀ (i : ℕ) c, s.threads[i]? = some (some c) → nodes[i]? = some c

/-- Some thread has read the entry of a later round. -/
def Late (nodes : List κ) (s : Process κ) : Prop :=
  ∃ (i j : ℕ) (c : κ), i < j ∧ nodes[j]? = some c ∧ s.threads[i]? = some (some c)

theorem started_init (nodes : List κ) : Started nodes (.init nodes) :=
  ⟨Nat.zero_le _, rfl, nofun, nofun⟩

/-- What a step can do. -/
theorem step_cases {s t : Process κ} {a : Turn} (h : s.step a = some t) :
    (∃ node rest, a = .assign ∧ s.inRound = false ∧ s.rest = node :: rest ∧
      t = { s with rest := rest, node := some node, inRound := true }) ∨
    (a = .start ∧ s.inRound = true ∧
      t = { s with inRound := false, threads := s.threads ++ [none] }) ∨
    (∃ i, a = .read i ∧ s.threads[i]? = some none ∧
      t = { s with threads := s.threads.set i s.node }) := by
  cases a with
  | assign =>
    simp only [Process.step] at h
    split at h
    · rename_i node rest hround hrest
      exact .inl ⟨node, rest, rfl, hround, hrest, (Option.some.inj h).symm⟩
    · cases h
  | start =>
    simp only [Process.step] at h
    split_ifs at h with hround
    exact .inr (.inl ⟨rfl, hround, (Option.some.inj h).symm⟩)
  | read i =>
    simp only [Process.step] at h
    split at h
    · rename_i hi
      exact .inr (.inr ⟨i, rfl, hi, (Option.some.inj h).symm⟩)
    · cases h

/-- What the threads have read after another one has read. -/
theorem getElem?_set_some {threads : List (Option κ)} {i k : ℕ} {node : Option κ} {c : κ}
    (h : (threads.set i node)[k]? = some (some c)) :
    k = i ∧ node = some c ∨ threads[k]? = some (some c) := by
  rw [List.getElem?_set] at h
  split_ifs at h with hik
  · exact .inl ⟨hik.symm, Option.some.inj h⟩
  · exact .inr h

theorem getElem?_append_none {threads : List (Option κ)} {k : ℕ} {c : κ}
    (h : (threads ++ [none])[k]? = some (some c)) : threads[k]? = some (some c) := by
  rw [List.getElem?_append] at h
  split_ifs at h with hk
  · exact h
  · rw [List.getElem?_singleton] at h
    split_ifs at h
    cases h

theorem started_step {nodes : List κ} {s t : Process κ} {a : Turn} (hs : Started nodes s)
    (h : s.step a = some t) : Started nodes t := by
  obtain ⟨node, rest, rfl, hround, hrest, rfl⟩ | ⟨rfl, hround, rfl⟩ | ⟨i, rfl, hi, rfl⟩ :=
    step_cases h
  · have hassigned : s.assigned = s.threads.length := by simp [Process.assigned, hround]
    have hdrop := hs.rest
    rw [hrest, hassigned] at hdrop
    obtain ⟨hlt, hnode, hrest'⟩ : ∃ hlt : s.threads.length < nodes.length,
        nodes[s.threads.length] = node ∧ rest = nodes.drop (s.threads.length + 1) := by
      have hlt : s.threads.length < nodes.length := by
        by_contra hge
        rw [List.drop_of_length_le (not_lt.mp hge)] at hdrop
        cases hdrop
      rw [List.drop_eq_getElem_cons hlt] at hdrop
      obtain ⟨hnode, hrest'⟩ := List.cons.inj hdrop
      exact ⟨hlt, hnode.symm, hrest'⟩
    refine ⟨hlt, hrest', fun _ => ?_, fun i c hi => ?_⟩
    · simp [Process.assigned, hlt, hnode]
    · obtain ⟨j, hij, hj, hc⟩ := hs.threads i c hi
      exact ⟨j, hij, Nat.lt_succ_of_lt (hassigned ▸ hj), hc⟩
  · have hassigned : Process.assigned { s with inRound := false, threads := s.threads ++ [none] } =
        s.assigned := by
      simp [Process.assigned, hround]
    refine ⟨hassigned ▸ hs.le, hassigned ▸ hs.rest, hassigned ▸ hs.node, fun i c hi => ?_⟩
    exact hassigned ▸ hs.threads i c (getElem?_append_none hi)
  · have hassigned : Process.assigned { s with threads := s.threads.set i s.node } =
        s.assigned := by
      simp [Process.assigned]
    refine ⟨hassigned ▸ hs.le, hassigned ▸ hs.rest, hassigned ▸ hs.node, fun k c hk => ?_⟩
    rw [hassigned]
    obtain ⟨rfl, hnode⟩ | hold := getElem?_set_some hk
    · have hlt := (List.getElem?_eq_some_iff.mp hi).1
      have hpos : k < s.assigned := lt_of_lt_of_le hlt (Nat.le_add_right _ _)
      exact ⟨s.assigned - 1, by omega, by omega, (hs.node (by omega)).symm.trans hnode⟩
    · exact hs.threads k c hold

/-- A thread that reads promptly reads the entry of its own round. -/
theorem matched_step {nodes : List κ} {s t : Process κ} {a : Turn} (hs : Started nodes s)
    (hmatched : Matched nodes s) (hprompt : Prompt s a) (h : s.step a = some t) :
    Matched nodes t := by
  obtain ⟨node, rest, rfl, hround, hrest, rfl⟩ | ⟨rfl, hround, rfl⟩ | ⟨i, rfl, hi, rfl⟩ :=
    step_cases h
  · exact hmatched
  · exact fun k c hk => hmatched k c (getElem?_append_none hk)
  · obtain ⟨hlength, hround⟩ := hprompt
    intro k c hk
    obtain ⟨rfl, hnode⟩ | hold := getElem?_set_some hk
    · have hassigned : s.assigned = k + 1 := by simp [Process.assigned, hlength, hround]
      have hread := hs.node (by omega)
      rw [hassigned, Nat.add_sub_cancel, hnode] at hread
      exact hread.symm
    · exact hmatched k c hold

/-- A thread that is not prompt reads the entry of a later round. -/
theorem late_of_not_prompt {nodes : List κ} {s t : Process κ} {a : Turn} (hs : Started nodes s)
    (hprompt : ¬ Prompt s a) (h : s.step a = some t) : Late nodes t := by
  obtain ⟨node, rest, rfl, -⟩ | ⟨rfl, -⟩ | ⟨i, rfl, hi, rfl⟩ := step_cases h
  · exact absurd trivial hprompt
  · exact absurd trivial hprompt
  · have hlt := (List.getElem?_eq_some_iff.mp hi).1
    have hassigned : i + 1 < s.assigned := by
      by_contra hge
      refine hprompt ⟨?_, ?_⟩
      · unfold Process.assigned at hge
        omega
      · cases hround : s.inRound with
        | false => rfl
        | true =>
          simp only [Process.assigned, hround, Bool.toNat_true] at hge
          omega
    have hnode := hs.node (by omega)
    have hj : s.assigned - 1 < nodes.length := by have := hs.le; omega
    rw [List.getElem?_eq_getElem hj] at hnode
    refine ⟨i, s.assigned - 1, nodes[s.assigned - 1], by omega, List.getElem?_eq_getElem hj, ?_⟩
    rw [List.getElem?_set_self hlt, hnode]

/-- What a thread has read stays. -/
theorem late_step {nodes : List κ} {s t : Process κ} {a : Turn} (hs : Late nodes s)
    (h : s.step a = some t) : Late nodes t := by
  obtain ⟨i, j, c, hij, hj, hi⟩ := hs
  obtain ⟨node, rest, rfl, hround, hrest, rfl⟩ | ⟨rfl, hround, rfl⟩ | ⟨k, rfl, hk, rfl⟩ :=
    step_cases h
  · exact ⟨i, j, c, hij, hj, hi⟩
  · have hlt := (List.getElem?_eq_some_iff.mp hi).1
    exact ⟨i, j, c, hij, hj, (List.getElem?_append_left hlt).trans hi⟩
  · have hne : k ≠ i := by
      rintro rfl
      rw [hk] at hi
      cases hi
    exact ⟨i, j, c, hij, hj, (List.getElem?_set_ne hne).trans hi⟩

/-- In every run all threads are prompt, or some thread has read the entry of a later round. -/
theorem prompt_or_late {nodes : List κ} {turns : List Turn} {s t : Process κ}
    (hs : Started nodes s) (h : run Process.step (fun _ _ => True) turns s = some t) :
    run Process.step Prompt turns s = some t ∨ Late nodes t := by
  induction turns generalizing s with
  | nil => exact .inl h
  | cons a turns ih =>
    rw [run, if_pos trivial] at h
    obtain ⟨u, hu, hrest⟩ := Option.bind_eq_some_iff.mp h
    by_cases hprompt : Prompt s a
    · rw [run, if_pos hprompt, hu]
      exact ih (started_step hs hu) hrest
    · refine .inr ?_
      have hinv := invariant_of_moves (I := Late nodes) (fun _ _ _ hlate _ => late_step hlate)
        (late_of_not_prompt hs hprompt hu) (moves_of_run hrest)
      exact hinv

/-- What a run leaves. -/
theorem started_of_runs {nodes : List κ} {turns : List Turn} {s : Process κ}
    (h : runs nodes turns = some s) : Started nodes s :=
  invariant_of_moves (fun _ _ _ hs _ => started_step hs) (started_init nodes) (moves_of_run h)

/-- What a run leaves in which all threads are prompt. -/
theorem matched_of_runsPromptly {nodes : List κ} {turns : List Turn} {s : Process κ}
    (h : runsPromptly nodes turns = some s) : Matched nodes s := by
  have hboth := invariant_of_moves (I := fun s => Started nodes s ∧ Matched nodes s)
    (fun _ _ _ hs hprompt hstep =>
      ⟨started_step hs.1 hstep, matched_step hs.1 hs.2 hprompt hstep⟩)
    ⟨started_init nodes, nofun⟩ (moves_of_run h)
  exact hboth.2

/-! ## Every node once -/

/-- At the end every thread has read some entry. -/
theorem ran_of_complete {nodes : List κ} {s : Process κ} (hs : Started nodes s)
    (hdone : s.Complete) {i : ℕ} (hi : i < nodes.length) :
    ∃ c, s.threads[i]? = some (some c) := by
  obtain ⟨hrest, hround, hread⟩ := hdone
  have hassigned : s.assigned = s.threads.length := by simp [Process.assigned, hround]
  have hlength : s.threads.length = nodes.length := by
    have hdrop := hs.rest
    rw [hrest, hassigned] at hdrop
    exact le_antisymm (hassigned ▸ hs.le) (List.drop_eq_nil_iff.mp hdrop.symm)
  have hi' : i < s.threads.length := hlength ▸ hi
  cases hc : s.threads[i] with
  | none => exact absurd (hc ▸ List.getElem_mem hi') hread
  | some c => exact ⟨c, List.getElem?_eq_some_iff.mpr ⟨hi', hc⟩⟩

/-- A permutation that makes nothing smaller changes nothing. -/
theorem eq_of_injective_of_le {n : ℕ} {f : Fin n → Fin n} (hinjective : Function.Injective f)
    (hle : ∀ i, i ≤ f i) (i : Fin n) : f i = i := by
  have hbijective := Finite.injective_iff_bijective.mp hinjective
  have hsum : ∑ j, (f j : ℕ) = ∑ j : Fin n, (j : ℕ) :=
    (Equiv.ofBijective f hbijective).sum_comp fun j => (j : ℕ)
  have hsame := (Finset.sum_eq_sum_iff_of_le fun j _ => Fin.le_def.mp (hle j)).mp hsum.symm
  exact Fin.ext (hsame i (Finset.mem_univ i)).symm

/-- Where every class is run by one thread, no class is listed twice, and every thread runs the
entry that it was started for. -/
theorem own_of_once {nodes : List κ} {s : Process κ} (hs : Started nodes s)
    (hran : ∀ i, i < nodes.length → ∃ c, s.threads[i]? = some (some c))
    (honce : ∀ c ∈ nodes, ∃! i : ℕ, s.threads[i]? = some (some c)) :
    nodes.Nodup ∧ ∀ i : Fin nodes.length, s.threads[(i : ℕ)]? = some (some nodes[i]) := by
  have hread : ∀ i : Fin nodes.length, ∃ j : Fin nodes.length, i ≤ j ∧
      s.threads[(i : ℕ)]? = some (some nodes[j]) := by
    intro i
    obtain ⟨c, hc⟩ := hran i i.isLt
    obtain ⟨j, hij, -, hj⟩ := hs.threads i c hc
    obtain ⟨hlt, rfl⟩ := List.getElem?_eq_some_iff.mp hj
    exact ⟨⟨j, hlt⟩, hij, hc⟩
  have hunique : ∀ {i k : ℕ} {j : Fin nodes.length}, s.threads[i]? = some (some nodes[j]) →
      s.threads[k]? = some (some nodes[j]) → i = k :=
    fun hi hk => (honce _ (List.getElem_mem _)).unique hi hk
  -- what the threads read is a permutation of the entries, and never an earlier one
  choose f hle hf using hread
  have hinjective : Function.Injective f :=
    fun i k hik => Fin.ext (hunique (hf i) (hik ▸ hf k))
  have hown : ∀ i : Fin nodes.length, s.threads[(i : ℕ)]? = some (some nodes[i]) := by
    intro i
    have h := hf i
    rwa [eq_of_injective_of_le hinjective hle i] at h
  have hnodup : ∀ i k : Fin nodes.length, nodes[i] = nodes[k] → i = k :=
    fun i k hik => Fin.ext (hunique (hown i) (hik ▸ hown k))
  exact ⟨List.nodup_iff_injective_get.mpr hnodup, hown⟩

/-- Threads that match run every class that is not listed twice once. -/
theorem once_of_matched {nodes : List κ} {s : Process κ} (hnodup : nodes.Nodup)
    (hmatched : Matched nodes s)
    (hran : ∀ i, i < nodes.length → ∃ c, s.threads[i]? = some (some c)) :
    ∀ c ∈ nodes, ∃! i : ℕ, s.threads[i]? = some (some c) := by
  intro c hc
  obtain ⟨i, hi, rfl⟩ := List.mem_iff_getElem.mp hc
  obtain ⟨c, hci⟩ := hran i hi
  have hsame := hmatched i c hci
  rw [List.getElem?_eq_getElem hi] at hsame
  refine ⟨i, hci.trans (by rw [Option.some.inj hsame]), fun k hk => ?_⟩
  have hk' := hmatched k _ hk
  obtain ⟨hlt, heq⟩ := List.getElem?_eq_some_iff.mp hk'
  exact (List.Nodup.getElem_inj_iff hnodup).mp heq

/-- Take any `NODES` and any interleaving of the loop with the threads, up to where the loop has
ended and every thread has read `node`. Each class of the list is run by exactly one thread if and
only if no class is in the list twice and every thread has read `node` before the loop assigned it
again. -/
theorem starts_once_iff {nodes : List κ} {turns : List Turn} {s : Process κ}
    (hrun : runs nodes turns = some s) (hdone : s.Complete) :
    (∀ c ∈ nodes, ∃! i : ℕ, s.threads[i]? = some (some c)) ↔
      nodes.Nodup ∧ runsPromptly nodes turns = some s := by
  have hs := started_of_runs hrun
  have hran : ∀ i, i < nodes.length → ∃ c, s.threads[i]? = some (some c) :=
    fun i hi => ran_of_complete hs hdone hi
  constructor
  · intro honce
    obtain ⟨hnodup, hown⟩ := own_of_once hs hran honce
    refine ⟨hnodup, (prompt_or_late (started_init nodes) hrun).resolve_right ?_⟩
    -- a late thread would run the entry of another one
    rintro ⟨i, j, c, hij, hj, hi⟩
    obtain ⟨hlt, rfl⟩ := List.getElem?_eq_some_iff.mp hj
    have hsame := (hown ⟨i, hij.trans hlt⟩).symm.trans hi
    have heq := (List.Nodup.getElem_inj_iff hnodup).mp (Option.some.inj (Option.some.inj hsame))
    exact hij.ne heq
  · rintro ⟨hnodup, hprompt⟩
    exact once_of_matched hnodup (matched_of_runsPromptly hprompt) hran

/-- The classes of `NODES`. -/
inductive Node where
  | nanoBridge
  | registrar
  | thermometer
deriving DecidableEq, Repr

/-- `NODES`. -/
def NODES : List Node := [.nanoBridge, .registrar, .thermometer]

/-- Every thread reads `node` before the next round. -/
def promptTurns : List Turn :=
  [.assign, .start, .read 0, .assign, .start, .read 1, .assign, .start, .read 2]

/-- The first thread is late. -/
def lateTurns : List Turn :=
  [.assign, .start, .assign, .read 0, .start, .read 1, .assign, .start, .read 2]

/-- Prompt threads start the nodes of `NODES` once. -/
theorem starts_NODES :
    ∃ s, runs NODES promptTurns = some s ∧
      ∀ c ∈ NODES, ∃! i : ℕ, s.threads[i]? = some (some c) := by
  have hrun : runs NODES promptTurns = some
      ⟨[], some .thermometer, false, [some .nanoBridge, some .registrar, some .thermometer]⟩ := rfl
  exact ⟨_, hrun, (starts_once_iff hrun ⟨rfl, rfl, by decide⟩).mpr ⟨by decide, rfl⟩⟩

/-- The registrar runs twice, and the bridge does not run. -/
theorem nanoBridge_lost :
    ¬ ∀ (nodes : List Node) turns s, runs nodes turns = some s → s.Complete →
      ∀ c ∈ nodes, ∃! i : ℕ, s.threads[i]? = some (some c) := by
  intro h
  have honce := h NODES lateTurns
    ⟨[], some .thermometer, false, [some .registrar, some .registrar, some .thermometer]⟩ rfl
    ⟨rfl, rfl, by decide⟩ .nanoBridge (by decide)
  obtain ⟨i, hi, -⟩ := honce
  have hmem := List.mem_of_getElem? hi
  revert hmem
  decide

end Guillemot.Roslite
