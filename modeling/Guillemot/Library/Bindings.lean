import Mathlib.Data.List.Nodup
import Mathlib.Data.List.Range
import Mathlib.Tactic.Common

/-!
# Names bound to lists that change in place

In a language whose lists are objects, an assignment binds a name to a list, and a method changes
the list in place. A loop over a list goes on over the object that it began with, whatever the name
is bound to later. `Bindings` keeps the objects ever made and the names with their references; no
two names share an object. `modify` changes the object of a name, and `rebind` binds the name to a
new list and leaves the old one as it is.

What clients see of the names is `get`, the contents of the list that a name is bound to:
`get_bind`, `get_modify` and `get_rebind` say how it changes.
-/

namespace Guillemot

/-- The list objects, and the names with the references that they are bound to. -/
structure Bindings (κ α : Type*) where
  objects : List (List α)
  bound : List (κ × ℕ)
  keys_nodup : (bound.map Prod.fst).Nodup
  refs_nodup : (bound.map Prod.snd).Nodup
  refs_lt : ∀ b ∈ bound, b.2 < objects.length

namespace Bindings

variable {κ α : Type*}

/-- No names and no lists. -/
def empty : Bindings κ α := ⟨[], [], .nil, .nil, nofun⟩

/-- The list object with the reference `r`. -/
def object (h : Bindings κ α) (r : ℕ) : List α := h.objects.getD r []

/-- The names that are bound. -/
def keys (h : Bindings κ α) : List κ := h.bound.map Prod.fst

theorem mem_keys_iff (h : Bindings κ α) {k : κ} : k ∈ h.keys ↔ ∃ r, (k, r) ∈ h.bound := by
  constructor
  · intro hk
    obtain ⟨⟨k', r⟩, hb, rfl⟩ := List.mem_map.mp hk
    exact ⟨r, hb⟩
  · rintro ⟨r, hb⟩
    exact List.mem_map_of_mem hb

variable [DecidableEq κ]

/-- The reference that a name is bound to. -/
def ref (h : Bindings κ α) (k : κ) : Option ℕ := h.bound.lookup k

/-- The contents of the list that a name is bound to. -/
def get (h : Bindings κ α) (k : κ) : List α :=
  match h.ref k with
  | none => []
  | some r => h.object r

theorem ref_eq_some_iff (h : Bindings κ α) {k : κ} {r : ℕ} :
    h.ref k = some r ↔ (k, r) ∈ h.bound := by
  have hnodup := h.keys_nodup
  unfold ref
  generalize h.bound = bound at hnodup ⊢
  induction bound with
  | nil => simp
  | cons b bs ih =>
    rw [List.map_cons, List.nodup_cons] at hnodup
    obtain ⟨k', r'⟩ := b
    by_cases hk : k = k'
    · subst hk
      have hnot : (k, r) ∉ bs := fun hmem => hnodup.1 (List.mem_map.mpr ⟨(k, r), hmem, rfl⟩)
      simp only [List.lookup_cons, beq_self_eq_true, List.mem_cons, Prod.mk.injEq, true_and, hnot,
        or_false, Option.some.injEq]
      exact eq_comm
    · have hbeq : (k == k') = false := beq_eq_false_iff_ne.mpr hk
      simp only [List.lookup_cons, hbeq, List.mem_cons, Prod.mk.injEq, hk, false_and, false_or]
      exact ih hnodup.2

theorem ref_eq_none_iff (h : Bindings κ α) {k : κ} : h.ref k = none ↔ k ∉ h.keys := by
  constructor
  · intro hnone hmem
    obtain ⟨⟨k', r⟩, hb, rfl⟩ := List.mem_map.mp hmem
    rw [(h.ref_eq_some_iff).mpr hb] at hnone
    cases hnone
  · intro hnot
    by_contra hsome
    obtain ⟨r, hr⟩ := Option.ne_none_iff_exists'.mp hsome
    exact hnot (List.mem_map_of_mem (h.ref_eq_some_iff.mp hr))

/-- Names that are not bound have no contents. -/
theorem get_of_notMem (h : Bindings κ α) {k : κ} (hk : k ∉ h.keys) : h.get k = [] := by
  rw [get, h.ref_eq_none_iff.mpr hk]

theorem get_of_mem (h : Bindings κ α) {k : κ} {r : ℕ} (hb : (k, r) ∈ h.bound) :
    h.get k = h.object r := by
  rw [get, h.ref_eq_some_iff.mpr hb]

/-- Two stores hold the same under a name when it is bound to objects with the same contents. -/
theorem get_congr {h h' : Bindings κ α} {k : κ} (hkeys : k ∈ h'.keys → k ∈ h.keys)
    (hobject : ∀ r, (k, r) ∈ h.bound → ∃ r', (k, r') ∈ h'.bound ∧ h'.object r' = h.object r) :
    h'.get k = h.get k := by
  by_cases hk : k ∈ h.keys
  · obtain ⟨r, hb⟩ := h.mem_keys_iff.mp hk
    obtain ⟨r', hb', hr⟩ := hobject r hb
    rw [h.get_of_mem hb, h'.get_of_mem hb', hr]
  · rw [h.get_of_notMem hk, h'.get_of_notMem fun hk' => hk (hkeys hk')]

/-! ## Binding a name for the first time -/

/-- A name that is not bound is bound to a new empty list. -/
def bind (h : Bindings κ α) (k : κ) : Bindings κ α :=
  if hk : k ∈ h.keys then h
  else
    { objects := h.objects ++ [[]]
      bound := h.bound ++ [(k, h.objects.length)]
      keys_nodup := by
        rw [List.map_append, List.map_singleton, List.nodup_append_comm]
        exact List.nodup_cons.mpr ⟨hk, h.keys_nodup⟩
      refs_nodup := by
        rw [List.map_append, List.map_singleton, List.nodup_append_comm]
        refine List.nodup_cons.mpr ⟨fun hmem => ?_, h.refs_nodup⟩
        obtain ⟨b, hb, hr⟩ := List.mem_map.mp hmem
        exact absurd (h.refs_lt b hb) (by omega)
      refs_lt := by
        intro b hb
        rw [List.length_append, List.length_singleton]
        rcases List.mem_append.mp hb with hb | hb
        · have := h.refs_lt b hb
          omega
        · obtain rfl := List.mem_singleton.mp hb
          omega }

theorem mem_keys_bind (h : Bindings κ α) (k k' : κ) :
    k' ∈ (h.bind k).keys ↔ k' = k ∨ k' ∈ h.keys := by
  unfold bind
  split_ifs with hk
  · constructor
    · exact .inr
    · rintro (rfl | hmem)
      · exact hk
      · exact hmem
  · simp [keys, or_comm]

/-- Binding a name does not change what the names hold. -/
@[simp]
theorem get_bind (h : Bindings κ α) (k k' : κ) : (h.bind k).get k' = h.get k' := by
  by_cases hk : k ∈ h.keys
  · rw [bind, dif_pos hk]
  · by_cases hk' : k' = k
    · subst hk'
      -- The new list is empty.
      have hb : (k', h.objects.length) ∈ (h.bind k').bound := by simp [bind, hk]
      rw [get_of_mem _ hb, h.get_of_notMem hk]
      simp [bind, hk, object]
    · refine get_congr (fun hmem => ((mem_keys_bind h k k').mp hmem).resolve_left hk') ?_
      intro r hb
      refine ⟨r, by simp [bind, hk, hb], ?_⟩
      simp [bind, hk, object, List.getElem?_append_left (h.refs_lt _ hb)]

/-! ## Changing a list in place -/

/-- The list that a name is bound to is changed by `f`. -/
def modify (h : Bindings κ α) (k : κ) (f : List α → List α) : Bindings κ α :=
  match h.ref k with
  | none => h
  | some r =>
    { h with
      objects := h.objects.modify r f
      refs_lt := by
        rw [List.length_modify]
        exact h.refs_lt }

@[simp]
theorem bound_modify (h : Bindings κ α) (k : κ) (f : List α → List α) :
    (h.modify k f).bound = h.bound := by
  unfold modify
  split <;> rfl

@[simp]
theorem keys_modify (h : Bindings κ α) (k : κ) (f : List α → List α) :
    (h.modify k f).keys = h.keys := by
  rw [keys, bound_modify, keys]

theorem object_modify (h : Bindings κ α) {k : κ} {r : ℕ} (hb : (k, r) ∈ h.bound)
    (f : List α → List α) {r' : ℕ} (hr' : r' < h.objects.length) :
    (h.modify k f).object r' = if r = r' then f (h.object r') else h.object r' := by
  have hobjects : (h.modify k f).objects = h.objects.modify r f := by
    unfold modify
    rw [h.ref_eq_some_iff.mpr hb]
  simp only [object, hobjects, List.getD_eq_getElem?_getD, List.getElem?_modify,
    List.getElem?_eq_getElem hr', Option.getD_some]
  split_ifs <;> rfl

/-- Only the name whose list is changed holds something else. -/
theorem get_modify (h : Bindings κ α) {k : κ} (hk : k ∈ h.keys) (f : List α → List α) (k' : κ) :
    (h.modify k f).get k' = if k' = k then f (h.get k) else h.get k' := by
  obtain ⟨r, hb⟩ := h.mem_keys_iff.mp hk
  split_ifs with hk'
  · subst hk'
    rw [get_of_mem _ (by rw [bound_modify]; exact hb), h.get_of_mem hb,
      h.object_modify hb f (h.refs_lt _ hb), if_pos rfl]
  · refine get_congr (fun hmem => by rwa [keys_modify] at hmem) fun r' hb' => ?_
    refine ⟨r', by rwa [bound_modify], ?_⟩
    -- No two names share a list.
    have hne : r ≠ r' := fun hr =>
      hk' (congrArg Prod.fst (List.inj_on_of_nodup_map h.refs_nodup hb' hb hr.symm))
    rw [h.object_modify hb f (h.refs_lt _ hb'), if_neg hne]

/-! ## Binding names to new lists -/

/-- A bound name is bound to a new list, `f` of the contents of the one that it was bound to. -/
def rebind (h : Bindings κ α) (f : List α → List α) (k : κ) : Bindings κ α where
  objects := h.objects ++ [f (h.get k)]
  bound := h.bound.map fun b => (b.1, if b.1 = k then h.objects.length else b.2)
  keys_nodup := by
    rw [List.map_map]
    exact h.keys_nodup
  refs_nodup := by
    rw [List.map_map]
    refine List.Nodup.map_on ?_ (List.Nodup.of_map _ h.keys_nodup)
    intro b hb b' hb' heq
    have hlt := h.refs_lt b hb
    have hlt' := h.refs_lt b' hb'
    simp only [Function.comp_apply] at heq
    split_ifs at heq with hk hk' hk'
    · exact List.inj_on_of_nodup_map h.keys_nodup hb hb' (hk.trans hk'.symm)
    · omega
    · omega
    · exact List.inj_on_of_nodup_map h.refs_nodup hb hb' heq
  refs_lt := by
    intro b hb
    rw [List.length_append, List.length_singleton]
    obtain ⟨b', hb', rfl⟩ := List.mem_map.mp hb
    have := h.refs_lt b' hb'
    simp only
    split_ifs <;> omega

@[simp]
theorem keys_rebind (h : Bindings κ α) (f : List α → List α) (k : κ) :
    (h.rebind f k).keys = h.keys := by
  simp only [keys, rebind, List.map_map]
  rfl

/-- Only the name that is bound to a new list holds something else. -/
theorem get_rebind (h : Bindings κ α) (f : List α → List α) {k : κ} (hk : k ∈ h.keys) (k' : κ) :
    (h.rebind f k).get k' = if k' = k then f (h.get k) else h.get k' := by
  obtain ⟨r, hb⟩ := h.mem_keys_iff.mp hk
  split_ifs with hk'
  · subst hk'
    have hb' : (k', h.objects.length) ∈ (h.rebind f k').bound :=
      List.mem_map.mpr ⟨_, hb, by simp⟩
    rw [get_of_mem _ hb']
    simp [rebind, object]
  · refine get_congr (fun hmem => by rwa [keys_rebind] at hmem) fun r' hb' => ?_
    refine ⟨r', List.mem_map.mpr ⟨_, hb', by simp [hk']⟩, ?_⟩
    simp [rebind, object, List.getElem?_append_left (h.refs_lt _ hb')]

/-- The names are bound to new lists one after the other. -/
def rebindAll (h : Bindings κ α) (f : List α → List α) : Bindings κ α :=
  h.keys.foldl (rebind · f) h

theorem foldl_rebind (f : List α → List α) (ks : List κ) (hnodup : ks.Nodup) (h : Bindings κ α)
    (hks : ∀ k ∈ ks, k ∈ h.keys) :
    (ks.foldl (rebind · f) h).keys = h.keys ∧
      ∀ k, (ks.foldl (rebind · f) h).get k = if k ∈ ks then f (h.get k) else h.get k := by
  induction ks generalizing h with
  | nil => exact ⟨rfl, fun k => rfl⟩
  | cons k₀ ks ih =>
    obtain ⟨hnot, hrest⟩ := List.nodup_cons.mp hnodup
    obtain ⟨hkeys, hget⟩ := ih hrest (h.rebind f k₀) fun k hk => by
      rw [keys_rebind]
      exact hks k (List.mem_cons_of_mem _ hk)
    refine ⟨hkeys.trans (keys_rebind h f k₀), fun k => ?_⟩
    rw [List.foldl_cons, hget, get_rebind h f (hks k₀ List.mem_cons_self)]
    by_cases hk : k = k₀
    · subst hk
      simp [hnot]
    · simp [hk]

/-- Every name holds what `f` makes of what it held, also when it is not bound. -/
theorem get_rebindAll (h : Bindings κ α) {f : List α → List α} (hf : f [] = []) (k : κ) :
    (h.rebindAll f).get k = f (h.get k) := by
  have hget := (foldl_rebind f h.keys h.keys_nodup h fun _ hk => hk).2 k
  rw [rebindAll, hget]
  split_ifs with hk
  · rfl
  · rw [h.get_of_notMem hk, hf]

/-! ## What holds of all elements -/

/-- Every element of every list object has the property, also where no name is bound to the list. -/
def All (P : α → Prop) (h : Bindings κ α) : Prop := ∀ l ∈ h.objects, ∀ a ∈ l, P a

variable {P : α → Prop} {h : Bindings κ α}

omit [DecidableEq κ] in
theorem All.object (hall : h.All P) {r : ℕ} {a : α} (ha : a ∈ h.object r) : P a := by
  rw [Bindings.object, List.getD_eq_getElem?_getD] at ha
  cases hr : h.objects[r]? with
  | none =>
    rw [hr] at ha
    cases ha
  | some l =>
    rw [hr] at ha
    exact hall l (List.mem_of_getElem? hr) a ha

theorem All.get (hall : h.All P) {k : κ} {a : α} (ha : a ∈ h.get k) : P a := by
  unfold Bindings.get at ha
  split at ha
  · cases ha
  · exact hall.object ha

theorem All.modify (hall : h.All P) {f : List α → List α} (k : κ)
    (hf : ∀ l, (∀ a ∈ l, P a) → ∀ a ∈ f l, P a) : (h.modify k f).All P := by
  unfold Bindings.modify
  split
  · exact hall
  · intro l hl
    obtain ⟨i, hi, rfl⟩ := List.mem_iff_getElem.mp hl
    simp only [List.length_modify] at hi
    rw [List.getElem_modify]
    split_ifs
    · exact hf _ (hall _ (List.getElem_mem hi))
    · exact hall _ (List.getElem_mem hi)

theorem All.rebind (hall : h.All P) {f : List α → List α} (k : κ)
    (hf : ∀ l, (∀ a ∈ l, P a) → ∀ a ∈ f l, P a) : (h.rebind f k).All P := by
  intro l hl
  rcases List.mem_append.mp hl with hl | hl
  · exact hall l hl
  · obtain rfl := List.mem_singleton.mp hl
    exact hf _ fun a ha => hall.get ha

end Bindings

end Guillemot
