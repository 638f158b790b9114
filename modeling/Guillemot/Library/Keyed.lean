import Mathlib.Data.List.Count
import Mathlib.Data.List.Forall2
import Mathlib.Tactic.Common

/-!
# Lists by key

Facts about lists whose elements have a key. Lists with the same elements under every key are
permutations of each other (`perm_of_filter_eq`), and the elements of a list, collected key by key,
are a permutation of it (`flatMap_filter_perm`). `exchange_perm` is for a list that holds, for every
key of a set, the elements that belong to the key: when the elements of some keys are removed and
those of others appended, it is so for the new set.
-/

namespace Guillemot

namespace Keyed

open scoped List

variable {α β κ : Type*} {key : α → κ}

section Filter

variable [DecidableEq κ]

/-- Lists with the same elements under every key. -/
theorem perm_of_filter_eq {l l' : List α}
    (h : ∀ k, l.filter (key · = k) = l'.filter (key · = k)) : l.Perm l' := by
  classical
  rw [List.perm_iff_count]
  intro a
  have hcount : ∀ xs : List α, (xs.filter (key · = key a)).count a = xs.count a := fun xs =>
    List.count_filter (by simp)
  rw [← hcount l, h, hcount]

/-- The elements of a list, key by key. -/
theorem flatMap_filter_perm {l : List α} {ks : List κ} (hks : ks.Nodup)
    (hl : ∀ a ∈ l, key a ∈ ks) : (ks.flatMap fun k => l.filter (key · = k)).Perm l := by
  classical
  rw [List.perm_iff_count]
  intro a
  induction ks generalizing l with
  | nil =>
    have hnil : l = [] := List.eq_nil_iff_forall_not_mem.mpr fun a ha => nomatch hl a ha
    rw [hnil, List.flatMap_nil]
  | cons k ks ih =>
    obtain ⟨hk, hks⟩ := List.nodup_cons.mp hks
    -- The elements under the other keys are those that are not under `k`.
    have hrest : (ks.flatMap fun k' => l.filter (key · = k')) =
        ks.flatMap fun k' => (l.filter (key · ≠ k)).filter (key · = k') := by
      refine List.flatMap_congr fun k' hk' => ?_
      rw [List.filter_filter]
      refine List.filter_congr fun b _ => ?_
      by_cases hb : key b = k'
      · have hne : k' ≠ k := fun heq => hk (heq ▸ hk')
        simp [hb, hne]
      · simp [hb]
    have hother : ∀ b ∈ l.filter (key · ≠ k), key b ∈ ks := fun b hb => by
      obtain ⟨hmem, hne⟩ := List.mem_filter.mp hb
      exact (List.mem_cons.mp (hl b hmem)).resolve_left (by simpa using hne)
    have hsplit : (l.filter (key · = k) ++ l.filter (key · ≠ k)).Perm l := by
      simpa using List.filter_append_perm (fun b => decide (key b = k)) l
    rw [List.flatMap_cons, List.count_append, hrest, ih hks hother, ← List.count_append]
    exact List.perm_iff_count.mp hsplit a

end Filter

/-- The elements of the keys in `leaving` go and those of the keys in `entering` come, so that a
list that belongs to the keys in `old` belongs to those in `new`. -/
theorem exchange_perm [BEq κ] [LawfulBEq κ] {old new leaving entering : List κ}
    {f f' : κ → List α} {l : List α}
    (hold : old.Nodup) (hnew : new.Nodup) (hleaving : ∀ k, k ∈ leaving ↔ k ∈ old ∧ k ∉ new)
    (hentering : entering.Nodup) (hmem : ∀ k, k ∈ entering ↔ k ∈ new ∧ k ∉ old)
    (hkey : ∀ k, ∀ a ∈ f k, key a = k)
    (hkept : ∀ k ∈ old, k ∈ new → f' k = f k) (hl : l.Perm (old.flatMap f)) :
    (l.filter (key · ∉ leaving) ++ entering.flatMap f').Perm (new.flatMap f') := by
  have hstay : ∀ ks ⊆ old, (ks.flatMap f).filter (key · ∉ leaving) =
      (ks.filter (· ∈ new)).flatMap f' := by
    intro ks hks
    induction ks with
    | nil => rfl
    | cons k ks ih =>
      obtain ⟨hk, hks⟩ := List.cons_subset.mp hks
      rw [List.flatMap_cons, List.filter_append, ih hks]
      by_cases hmem : k ∈ new
      · have hall : (f k).filter (key · ∉ leaving) = f' k := by
          rw [hkept k hk hmem, List.filter_eq_self]
          intro a ha
          simp [hkey k a ha, hleaving, hmem]
        rw [hall, List.filter_cons_of_pos (by simpa using hmem), List.flatMap_cons]
      · have hnone : (f k).filter (key · ∉ leaving) = [] := by
          rw [List.filter_eq_nil_iff]
          intro a ha
          simp [hkey k a ha, hleaving, hmem, hk]
        rw [hnone, List.nil_append, List.filter_cons_of_neg (by simpa using hmem)]
  have hcome : entering.Perm (new.filter (· ∉ old)) := by
    refine (List.perm_ext_iff_of_nodup hentering (hnew.filter _)).mpr fun k => ?_
    simp [hmem]
  have hboth : (old.filter (· ∈ new)).Perm (new.filter (· ∈ old)) := by
    refine (List.perm_ext_iff_of_nodup (hold.filter _) (hnew.filter _)).mpr fun k => ?_
    simp [and_comm]
  calc l.filter (key · ∉ leaving) ++ entering.flatMap f'
    _ ~ (old.flatMap f).filter (key · ∉ leaving) ++ entering.flatMap f' :=
      (hl.filter _).append_right _
    _ = (old.filter (· ∈ new)).flatMap f' ++ entering.flatMap f' := by
      rw [hstay old (List.Subset.refl _)]
    _ ~ (new.filter (· ∈ old)).flatMap f' ++ (new.filter (· ∉ old)).flatMap f' :=
      (hboth.flatMap_right _).append (hcome.flatMap_right _)
    _ = (new.filter (· ∈ old) ++ new.filter (· ∉ old)).flatMap f' := by rw [List.flatMap_append]
    _ ~ new.flatMap f' := by
      refine List.Perm.flatMap_right _ ?_
      simpa using List.filter_append_perm (fun k => decide (k ∈ old)) new

/-! ## Lists put together -/

theorem sublist_flatMap {f g : κ → List α} {ks : List κ}
    (hsub : ∀ k ∈ ks, (f k).Sublist (g k)) : (ks.flatMap f).Sublist (ks.flatMap g) := by
  induction ks with
  | nil => exact List.Sublist.refl _
  | cons k ks ih =>
    obtain ⟨hk, hks⟩ := List.forall_mem_cons.mp hsub
    rw [List.flatMap_cons, List.flatMap_cons]
    exact hk.append (ih hks)

/-- Parts that lack nothing together lack nothing each. -/
theorem eq_of_flatMap_eq {f g : κ → List α} {ks : List κ} (hsub : ∀ k ∈ ks, (f k).Sublist (g k))
    (heq : ks.flatMap f = ks.flatMap g) : ∀ k ∈ ks, f k = g k := by
  induction ks with
  | nil => exact fun k hk => nomatch hk
  | cons k ks ih =>
    obtain ⟨hk, hks⟩ := List.forall_mem_cons.mp hsub
    have hrest := sublist_flatMap hks
    rw [List.flatMap_cons, List.flatMap_cons] at heq
    have hlen := congrArg List.length heq
    rw [List.length_append, List.length_append] at hlen
    have hle := hk.length_le
    have hle' := hrest.length_le
    have hfirst : f k = g k := hk.eq_of_length (by omega)
    rw [hfirst, List.append_cancel_left_eq] at heq
    exact List.forall_mem_cons.mpr ⟨hfirst, ih hks heq⟩

/-- What an element corresponds to. -/
theorem exists_of_forall₂ {R : α → β → Prop} {xs : List α} {bs : List β}
    (h : List.Forall₂ R xs bs) {x : α} (hx : x ∈ xs) : ∃ b ∈ bs, R x b := by
  induction h with
  | nil => cases hx
  | cons hR _ ih =>
    rcases List.mem_cons.mp hx with rfl | hx
    · exact ⟨_, List.mem_cons_self, hR⟩
    · obtain ⟨b, hb, hR⟩ := ih hx
      exact ⟨b, List.mem_cons_of_mem _ hb, hR⟩

/-- A sublist corresponds to a sublist. -/
theorem forall₂_of_sublist {R : α → β → Prop} {xs ys : List α} {bs : List β}
    (hsub : xs.Sublist ys) (h : List.Forall₂ R ys bs) :
    ∃ as, as.Sublist bs ∧ List.Forall₂ R xs as := by
  induction hsub generalizing bs with
  | slnil => exact ⟨[], List.nil_sublist _, .nil⟩
  | cons y _ ih =>
    obtain _ | ⟨_, hrest⟩ := h
    obtain ⟨as, hsub, has⟩ := ih hrest
    exact ⟨as, hsub.cons _, has⟩
  | cons_cons y _ ih =>
    obtain _ | ⟨hy, hrest⟩ := h
    obtain ⟨as, hsub, has⟩ := ih hrest
    exact ⟨_ :: as, hsub.cons_cons _, .cons hy has⟩

end Keyed

end Guillemot
