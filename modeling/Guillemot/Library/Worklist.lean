import Guillemot.Library.Loop
import Mathlib.Data.Finset.Card
import Mathlib.Data.List.Nodup

/-!
# Worklist searches

A search that keeps what it has found in one list, and an index into it. A round looks at the node
at the index: the nodes next to it that are not in the list yet are added at its end, and the index
moves on. The search ends when the index has reached the end of the list. The invariant `Sound` ties
list and index together: what was found can be reached from the start, and what is next to the nodes
before the index was found. `search_spec` says that a search in which finitely many nodes can be
reached ends with each of these in the list once.
-/

namespace Guillemot

open Relation (ReflTransGen)

/-- The nodes found so far, and the index of the next one to look at. -/
structure Worklist (α : Type*) where
  index : ℕ
  found : List α

namespace Worklist

variable {α : Type*} {next : α → List α} {start : α} {w v : Worklist α}

/-- There is a node to look at. -/
def pending (w : Worklist α) : Bool := decide (w.index < w.found.length)

/-- A node can be reached. -/
def Reach (next : α → List α) : α → α → Prop := ReflTransGen fun a b => b ∈ next a

/-! ## The invariant -/

/-- What holds of list and index throughout a search. -/
structure Sound (next : α → List α) (start : α) (w : Worklist α) : Prop where
  /-- No node is found twice. -/
  nodup : w.found.Nodup
  /-- The start is found. -/
  mem_start : start ∈ w.found
  /-- What is found can be reached. -/
  reach : ∀ a ∈ w.found, Reach next start a
  /-- What is next to a node before the index is found. -/
  closed : ∀ a ∈ w.found.take w.index, ∀ b ∈ next a, b ∈ w.found
  /-- The index has not passed the end. -/
  index_le : w.index ≤ w.found.length

/-- A search begins with its start. -/
theorem sound_start : Sound next start ⟨0, [start]⟩ where
  nodup := List.nodup_singleton start
  mem_start := List.mem_singleton_self start
  reach a ha := List.mem_singleton.mp ha ▸ .refl
  closed a ha := by simp at ha
  index_le := Nat.zero_le _

/-- A search that is over has found what can be reached. -/
theorem Sound.mem_iff (h : Sound next start w) (hover : pending w = false) {a : α} :
    a ∈ w.found ↔ Reach next start a := by
  refine ⟨h.reach a, fun hreach => ?_⟩
  have hall : w.found.take w.index = w.found :=
    List.take_of_length_le (not_lt.mp (of_decide_eq_false hover))
  induction hreach with
  | refl => exact h.mem_start
  | tail _ hnext ih => exact h.closed _ (hall.symm ▸ ih) _ hnext

/-! ## Rounds -/

variable [DecidableEq α]

/-- A node that is new goes to the end. -/
def push (found : List α) (a : α) : List α := if a ∈ found then found else found ++ [a]

/-- The node at the index is looked at. -/
def look (next : α → List α) (w : Worklist α) : Option (Worklist α) :=
  w.found[w.index]?.map fun a =>
    { index := w.index + 1, found := (next a).foldl push w.found }

/-- Pushing adds the node, and nothing else. -/
@[simp]
theorem mem_push {found : List α} {a b : α} : b ∈ push found a ↔ b ∈ found ∨ b = a := by
  unfold push
  split_ifs with h
  · exact ⟨.inl, fun hb => hb.elim id (fun heq => heq ▸ h)⟩
  · rw [List.mem_append, List.mem_singleton]

/-- It keeps the nodes apart. -/
theorem nodup_push {found : List α} (h : found.Nodup) (a : α) : (push found a).Nodup := by
  unfold push
  split_ifs with ha
  · exact h
  · exact List.nodup_append'.mpr
      ⟨h, List.nodup_singleton a, List.disjoint_singleton.mpr ha⟩

/-- It leaves the nodes before where they are. -/
theorem prefix_push (found : List α) (a : α) : found <+: push found a := by
  unfold push
  split_ifs
  · exact List.prefix_rfl
  · exact List.prefix_append found [a]

/-- Pushing many. -/
theorem mem_foldl_push {b : α} (as found : List α) :
    b ∈ as.foldl push found ↔ b ∈ found ∨ b ∈ as := by
  induction as generalizing found with
  | nil => simp
  | cons a as ih => rw [List.foldl_cons, ih, mem_push, List.mem_cons, or_assoc]

theorem nodup_foldl_push (as : List α) {found : List α} (h : found.Nodup) :
    (as.foldl push found).Nodup := by
  induction as generalizing found with
  | nil => exact h
  | cons a as ih => exact ih (nodup_push h a)

theorem prefix_foldl_push (as found : List α) : found <+: as.foldl push found := by
  induction as generalizing found with
  | nil => exact List.prefix_rfl
  | cons a as ih => exact (prefix_push found a).trans (ih (push found a))

/-- What a look at a node leaves. -/
theorem look_of_getElem? {a : α} (h : w.found[w.index]? = some a) :
    look next w = some ⟨w.index + 1, (next a).foldl push w.found⟩ := by
  rw [look, h, Option.map_some]

/-- A round looks at the node at the index. -/
theorem round_iff : Loop.Round pending (look next) w v ↔
    ∃ a, w.found[w.index]? = some a ∧ v = ⟨w.index + 1, (next a).foldl push w.found⟩ := by
  constructor
  · rintro ⟨-, hlook⟩
    obtain ⟨a, ha, hv⟩ := Option.map_eq_some_iff.mp hlook
    exact ⟨a, ha, hv.symm⟩
  · rintro ⟨a, ha, rfl⟩
    obtain ⟨hlt, -⟩ := List.getElem?_eq_some_iff.mp ha
    exact ⟨decide_eq_true hlt, look_of_getElem? ha⟩

/-- There is always a node at an index that is pending. -/
theorem exists_round (next : α → List α) (h : pending w = true) :
    ∃ v, Loop.Round pending (look next) w v :=
  ⟨_, round_iff.mpr ⟨_, List.getElem?_eq_getElem (of_decide_eq_true h), rfl⟩⟩

/-- A round keeps the invariant. -/
theorem Sound.round (h : Sound next start w) (hround : Loop.Round pending (look next) w v) :
    Sound next start v := by
  obtain ⟨a, ha, rfl⟩ := round_iff.mp hround
  obtain ⟨hlt, hget⟩ := List.getElem?_eq_some_iff.mp ha
  have hpre := prefix_foldl_push (next a) w.found
  refine ⟨nodup_foldl_push _ h.nodup, (mem_foldl_push _ _).mpr (.inl h.mem_start), ?_, ?_,
    hlt.trans_le hpre.length_le⟩
  · intro b hb
    rcases (mem_foldl_push _ _).mp hb with hb | hb
    · exact h.reach b hb
    · -- A node that is new is next to one that can be reached.
      exact (h.reach a (hget ▸ List.getElem_mem hlt)).tail hb
  · intro c hc b hb
    have htake : ((next a).foldl push w.found).take (w.index + 1) =
        w.found.take w.index ++ [a] := by
      obtain ⟨rest, hrest⟩ := hpre
      rw [← hrest, List.take_append_of_le_length hlt, List.take_add_one, ha, Option.toList_some]
    rw [htake, List.mem_append, List.mem_singleton] at hc
    refine (mem_foldl_push _ _).mpr ?_
    rcases hc with hc | rfl
    · exact .inl (h.closed c hc b hb)
    · exact .inr hb

/-- The list is no longer than there are nodes that can be reached. -/
theorem Sound.length_le (h : Sound next start w) {nodes : Finset α}
    (hnodes : ∀ a, Reach next start a → a ∈ nodes) : w.found.length ≤ nodes.card := by
  rw [← List.toFinset_card_of_nodup h.nodup]
  exact Finset.card_le_card fun a ha => hnodes a (h.reach a (List.mem_toFinset.mp ha))

/-- A search among finitely many nodes ends with those that can be reached, each found once. -/
theorem search_spec (nodes : Finset α) (hnodes : ∀ a, Reach next start a → a ∈ nodes) :
    ∃ w, (∀ fuel, nodes.card < fuel →
        Loop.whileLoop pending (look next) fuel ⟨0, [start]⟩ = .done w) ∧
      w.found.Nodup ∧ ∀ a, a ∈ w.found ↔ Reach next start a := by
  -- Every round leaves less of the room for nodes after the index.
  have hends : Loop.whileLoop pending (look next) (nodes.card + 1) ⟨0, [start]⟩ ≠ .running := by
    refine Loop.ends_of_variant (I := Sound next start) (μ := fun w => nodes.card - w.index)
      (fun w v hw hround => ⟨hw.round hround, ?_⟩) sound_start (Nat.lt_succ_of_le (Nat.sub_le _ _))
    have hroom := (hw.round hround).length_le hnodes
    have hindex := (hw.round hround).index_le
    obtain ⟨a, -, rfl⟩ := round_iff.mp hround
    dsimp only at hroom hindex ⊢
    omega
  cases hrun : Loop.whileLoop pending (look next) (nodes.card + 1) ⟨0, [start]⟩ with
  | running => exact absurd hrun hends
  | fault =>
    obtain ⟨w, -, hpending, hnone⟩ := Loop.fault_iff.mp ⟨_, hrun⟩
    obtain ⟨v, hv⟩ := exists_round next hpending
    rw [hv.2] at hnone
    cases hnone
  | done w =>
    obtain ⟨hreaches, hover⟩ := Loop.done_iff.mp ⟨_, hrun⟩
    have hsound : Sound next start w :=
      Loop.invariant_of_reaches (fun _ _ hw hround => hw.round hround) sound_start hreaches
    refine ⟨w, fun fuel hfuel => ?_, hsound.nodup, fun a => hsound.mem_iff hover⟩
    rw [Loop.whileLoop_mono hfuel hends, hrun]

end Worklist

end Guillemot
