import Guillemot.Roslite.Lookups
import Mathlib.Data.List.Nodup
import Mathlib.Data.List.Pairwise

/-!
# The names that Atlas gives

All lookups of one name lead to one proxy, and no two proxies share an address. The ids that
`_get_id` counts are used once, and so are the ports as long as `bind_to_random_port` answers with a
port that is not in use. `Named` is the invariant of the two tables, the counter and the ports, and
`naming_consistent` says what it means for any sequence of lookups.
-/

namespace Guillemot.Roslite

open Raising

/-! ## Addresses -/

/-- Different numbers are written differently. -/
theorem decimal_injective {m n : ℕ} (h : m.repr = n.repr) : m = n := by
  have hdigits : Nat.toDigits 10 m = Nat.toDigits 10 n := String.ofList_injective h
  rw [← Nat.ofDigitChars_ten_toDigits (n := m), hdigits, Nat.ofDigitChars_ten_toDigits]

/-- The addresses of a proxy. -/
def Proxy.addresses (p : Proxy) : List String :=
  [p.frontend_inproc, p.frontend_ipc, p.frontend_tcp, p.backend_inproc, p.backend_ipc,
    p.backend_tcp]

theorem Proxy.frontendAddress_mem (p : Proxy) (locality : Locality) :
    p.frontendAddress locality ∈ p.addresses := by
  cases locality <;> simp [frontendAddress, addresses]

theorem Proxy.backendAddress_mem (p : Proxy) (locality : Locality) :
    p.backendAddress locality ∈ p.addresses := by
  cases locality <;> simp [backendAddress, addresses]

namespace Atlas

theorem inprocAddress_inj {i j : ℕ} : inprocAddress i = inprocAddress j ↔ i = j := by
  unfold inprocAddress
  rw [String.append_right_inj]
  exact ⟨decimal_injective, congrArg _⟩

theorem ipcAddress_inj {pid i j : ℕ} : ipcAddress pid i = ipcAddress pid j ↔ i = j := by
  unfold ipcAddress
  rw [String.append_right_inj]
  exact ⟨decimal_injective, congrArg _⟩

theorem tcpAddress_inj {interface : String} {a b : ℕ} :
    tcpAddress interface a = tcpAddress interface b ↔ a = b := by
  unfold tcpAddress
  rw [String.append_right_inj]
  exact ⟨decimal_injective, congrArg _⟩

/-- The first letters of an address that begins with a known text. -/
theorem take_append {n : ℕ} {s : String} (h : n ≤ s.toList.length) (t : String) :
    (s ++ t).toList.take n = s.toList.take n := by
  rw [String.toList_append, List.take_append_of_le_length h]

theorem take_inprocAddress (i : ℕ) : (inprocAddress i).toList.take 2 = ['i', 'n'] := by
  rw [inprocAddress, take_append (by decide)]
  rfl

theorem take_ipcAddress (pid i : ℕ) : (ipcAddress pid i).toList.take 2 = ['i', 'p'] := by
  unfold ipcAddress
  rw [String.append_assoc, String.append_assoc, take_append (by decide)]
  rfl

theorem take_tcpAddress (interface : String) (a : ℕ) :
    (tcpAddress interface a).toList.take 2 = ['t', 'c'] := by
  rw [tcpAddress, String.append_assoc, String.append_assoc, take_append (by decide)]
  rfl

theorem inprocAddress_ne_ipcAddress (i pid j : ℕ) : inprocAddress i ≠ ipcAddress pid j := by
  intro h
  have htake := take_inprocAddress i
  rw [h, take_ipcAddress] at htake
  cases htake

theorem inprocAddress_ne_tcpAddress (i : ℕ) (interface : String) (a : ℕ) :
    inprocAddress i ≠ tcpAddress interface a := by
  intro h
  have htake := take_inprocAddress i
  rw [h, take_tcpAddress] at htake
  cases htake

theorem ipcAddress_ne_tcpAddress (pid i : ℕ) (interface : String) (a : ℕ) :
    ipcAddress pid i ≠ tcpAddress interface a := by
  intro h
  have htake := take_ipcAddress pid i
  rw [h, take_tcpAddress] at htake
  cases htake

/-! ## The invariant -/

variable (host : Host)

/-- The addresses of all proxies. -/
def addresses (s : Atlas) : List String := (s.channels ++ s.services).flatMap (·.2.addresses)

/-- An address that was made from an id or a port that is used. -/
def Known (s : Atlas) (address : String) : Prop :=
  (∃ id < s.nextId, address = inprocAddress id ∨ address = ipcAddress host.pid id) ∨
    ∃ port ∈ s.ports, address = tcpAddress host.interface port

/-- The two sockets of a proxy are of the types that its kind has, and bound to its addresses. -/
structure Opened (s : Atlas) (kind : Kind) (p : Proxy) : Prop where
  frontend : s.sockets[p.frontend]? = some kind.frontendType
  backend : s.sockets[p.backend]? = some kind.backendType
  frontend_bound : ∀ locality, (p.frontendAddress locality, p.frontend) ∈ s.bound
  backend_bound : ∀ locality, (p.backendAddress locality, p.backend) ∈ s.bound

/-- Every address is used once, and made from an id or a port that is used, and all proxies are
open. -/
structure Named (s : Atlas) : Prop where
  known : ∀ address ∈ s.addresses, Known host s address
  nodup : s.addresses.Nodup
  opened : ∀ kind, ∀ e ∈ s.table kind, Opened s kind e.2

theorem named_init : Named host .init :=
  ⟨nofun, .nil, fun kind => by cases kind <;> exact nofun⟩

/-- A reply changes nothing else. -/
theorem named_replied {s : Atlas} (hs : Named host s) (response : Value) :
    Named host (s.replied response) := by
  refine ⟨hs.known, hs.nodup, fun kind e he => ?_⟩
  have hopened := hs.opened kind e (by cases kind <;> exact he)
  exact ⟨hopened.frontend, hopened.backend, hopened.frontend_bound, hopened.backend_bound⟩

/-- Later states know the address, too. -/
theorem Known.mono {s t : Atlas} {address : String} (h : Known host s address)
    (hid : s.nextId ≤ t.nextId) (hports : s.ports ⊆ t.ports) : Known host t address := by
  obtain ⟨id, hlt, haddress⟩ | ⟨port, hport, haddress⟩ := h
  · exact .inl ⟨id, hlt.trans_le hid, haddress⟩
  · exact .inr ⟨port, hports hport, haddress⟩

theorem Opened.mono {s t : Atlas} {kind : Kind} {p : Proxy} (h : Opened s kind p)
    (hsockets : s.sockets <+: t.sockets) (hbound : s.bound ⊆ t.bound) : Opened t kind p := by
  have hsocket : ∀ {i : ℕ} {type : SocketType}, s.sockets[i]? = some type →
      t.sockets[i]? = some type := by
    intro i type hi
    obtain ⟨more, hmore⟩ := hsockets
    rw [← hmore, List.getElem?_append_left (List.getElem?_eq_some_iff.mp hi).1, hi]
  exact ⟨hsocket h.frontend, hsocket h.backend, fun locality => hbound (h.frontend_bound locality),
    fun locality => hbound (h.backend_bound locality)⟩

theorem nextId_withProxy (s : Atlas) (kind : Kind) :
    (s.withProxy host kind).nextId = s.nextId + 2 := rfl

theorem ports_withProxy (s : Atlas) (kind : Kind) : s.ports ⊆ (s.withProxy host kind).ports :=
  List.subset_append_left _ _

theorem sockets_withProxy (s : Atlas) (kind : Kind) :
    s.sockets <+: (s.withProxy host kind).sockets := List.prefix_append _ _

theorem bound_withProxy (s : Atlas) (kind : Kind) : s.bound ⊆ (s.withProxy host kind).bound :=
  List.subset_append_left _ _

/-- A proxy that was just created is open. -/
theorem opened_newProxy (s : Atlas) (kind : Kind) :
    Opened (s.withProxy host kind) kind (s.newProxy host) := by
  refine ⟨?_, ?_, fun locality => ?_, fun locality => ?_⟩
  · simp [withProxy, newProxy]
  · simp [withProxy, newProxy]
  · cases locality <;> simp [withProxy, newProxy, Proxy.frontendAddress]
  · cases locality <;> simp [withProxy, newProxy, Proxy.backendAddress]

/-- The addresses of a new proxy are known afterwards. -/
theorem known_newProxy {s : Atlas} (kind : Kind) {address : String}
    (h : address ∈ (s.newProxy host).addresses) : Known host (s.withProxy host kind) address := by
  simp only [Proxy.addresses, newProxy, List.mem_cons, List.not_mem_nil, or_false] at h
  rcases h with rfl | rfl | rfl | rfl | rfl | rfl
  · exact .inl ⟨s.nextId, by simp [withProxy], .inl rfl⟩
  · exact .inl ⟨s.nextId, by simp [withProxy], .inr rfl⟩
  · exact .inr ⟨_, by simp [withProxy], rfl⟩
  · exact .inl ⟨s.nextId + 1, by simp [withProxy], .inl rfl⟩
  · exact .inl ⟨s.nextId + 1, by simp [withProxy], .inr rfl⟩
  · exact .inr ⟨_, by simp [withProxy], rfl⟩

theorem known_inprocAddress_iff {s : Atlas} {id : ℕ} :
    Known host s (inprocAddress id) ↔ id < s.nextId := by
  constructor
  · rintro (⟨id', hlt, h | h⟩ | ⟨port, -, h⟩)
    · exact inprocAddress_inj.mp h ▸ hlt
    · exact absurd h (inprocAddress_ne_ipcAddress _ _ _)
    · exact absurd h (inprocAddress_ne_tcpAddress _ _ _)
  · exact fun hlt => .inl ⟨id, hlt, .inl rfl⟩

theorem known_ipcAddress_iff {s : Atlas} {id : ℕ} :
    Known host s (ipcAddress host.pid id) ↔ id < s.nextId := by
  constructor
  · rintro (⟨id', hlt, h | h⟩ | ⟨port, -, h⟩)
    · exact absurd h.symm (inprocAddress_ne_ipcAddress _ _ _)
    · exact ipcAddress_inj.mp h ▸ hlt
    · exact absurd h (ipcAddress_ne_tcpAddress _ _ _ _)
  · exact fun hlt => .inl ⟨id, hlt, .inr rfl⟩

theorem known_tcpAddress_iff {s : Atlas} {port : ℕ} :
    Known host s (tcpAddress host.interface port) ↔ port ∈ s.ports := by
  constructor
  · rintro (⟨id, -, h | h⟩ | ⟨port', hport, h⟩)
    · exact absurd h.symm (inprocAddress_ne_tcpAddress _ _ _)
    · exact absurd h.symm (ipcAddress_ne_tcpAddress _ _ _ _)
    · exact tcpAddress_inj.mp h ▸ hport
  · exact fun hport => .inr ⟨port, hport, rfl⟩

/-! ## Lookups -/

/-- A lookup returns the proxy that it finds, or else a new one, which it stores. -/
theorem lookUp_cases (s : Atlas) (kind : Kind) (name : Value) :
    (∃ p, (s.table kind).get name = some p ∧ s.lookUp host kind name = (p, s)) ∨
      (s.table kind).get name = none ∧ s.lookUp host kind name = (s.newProxy host,
        (s.withProxy host kind).setTable (s.table kind ++ [(name, s.newProxy host)]) kind) := by
  unfold lookUp
  cases h : (s.table kind).get name with
  | some p => exact .inl ⟨p, rfl, rfl⟩
  | none =>
    refine .inr ⟨rfl, ?_⟩
    rw [Table.insert, Dict.insert_of_get_eq_none h]

/-- What a new proxy adds to the addresses. -/
theorem addresses_setTable (s : Atlas) (kind : Kind) (name : Value) :
    ((s.withProxy host kind).setTable (s.table kind ++ [(name, s.newProxy host)])
        kind).addresses.Perm
      (s.addresses ++ (s.newProxy host).addresses) := by
  cases kind with
  | channel =>
    simp only [addresses, setTable, table, withProxy, List.flatMap_append, List.flatMap_cons,
      List.flatMap_nil, List.append_nil, List.append_assoc]
    exact List.Perm.append_left _ List.perm_append_comm
  | service =>
    simp only [addresses, setTable, table, withProxy, List.flatMap_append, List.flatMap_cons,
      List.flatMap_nil, List.append_nil, List.append_assoc]
    exact .refl _

/-- Other tables keep their entries. -/
theorem mem_table_setTable {s : Atlas} {kind kind' : Kind} {name : Value} {p : Proxy}
    {e : Value × Proxy}
    (h : e ∈ ((s.withProxy host kind).setTable (s.table kind ++ [(name, p)]) kind).table kind') :
    e ∈ s.table kind' ∨ kind' = kind ∧ e = (name, p) := by
  cases kind <;> cases kind' <;> simpa [table, setTable, withProxy] using h

/-- A name that is found stays what it is. -/
theorem get_lookUp_of_found {s : Atlas} {kind kind' : Kind} {name name' : Value} {p : Proxy}
    (h : (s.table kind').get name' = some p) :
    ((s.lookUp host kind name).2.table kind').get name' = some p := by
  obtain ⟨p', -, hlookup⟩ | ⟨-, hlookup⟩ := lookUp_cases host s kind name
  · rw [hlookup]
    exact h
  · rw [hlookup]
    by_cases hkind : kind' = kind
    · subst hkind
      rw [table_setTable, Table.get, Dict.get_append, show Dict.get Value.same _ _ = some p from h]
      rfl
    · cases kind <;> cases kind' <;> first | exact absurd rfl hkind | exact h

/-- A lookup returns what is found afterwards. -/
theorem get_lookUp (s : Atlas) (kind : Kind) (name : String) :
    ((s.lookUp host kind (.str name)).2.table kind).get (.str name) =
      some (s.lookUp host kind (.str name)).1 := by
  obtain ⟨p, hfound, hlookup⟩ | ⟨hnone, hlookup⟩ := lookUp_cases host s kind (.str name)
  · rw [hlookup]
    exact hfound
  · rw [hlookup]
    simp only [table_setTable]
    rw [Table.get, Dict.get_append, show Dict.get Value.same _ _ = none from hnone, Dict.get_cons,
      if_pos (same_str.mpr rfl)]
    rfl

/-- Proxies with different names, or of different kinds, have no address in common. -/
theorem disjoint_of_ne {s : Atlas} (hs : Named host s) {kind kind' : Kind} {name name' : String}
    {p p' : Proxy} (h : (s.table kind).get (.str name) = some p)
    (h' : (s.table kind').get (.str name') = some p') (hne : kind ≠ kind' ∨ name ≠ name') :
    p.addresses.Disjoint p'.addresses := by
  obtain ⟨e, he, hsame, rfl⟩ := Dict.exists_mem_of_get_eq_some h
  obtain ⟨e', he', hsame', rfl⟩ := Dict.exists_mem_of_get_eq_some h'
  have hpairwise := (List.nodup_flatMap.mp hs.nodup).2
  obtain ⟨hchannels, hservices, hboth⟩ := List.pairwise_append.mp hpairwise
  have hsymmetric :
      Std.Symm (Function.onFun List.Disjoint fun e : Value × Proxy => e.2.addresses) :=
    ⟨fun _ _ h _ ha hb => h hb ha⟩
  have hdifferent : kind = kind' → e ≠ e' := by
    rintro rfl rfl
    have hname := same_str.mp (same_trans (same_symm hsame) hsame')
    exact hne.elim (absurd rfl) (absurd hname)
  cases kind with
  | channel =>
    cases kind' with
    | channel => exact hchannels.forall he he' (hdifferent rfl)
    | service => exact hboth e he e' he'
  | service =>
    cases kind' with
    | channel => exact fun _ ha hb => hboth e' he' e he hb ha
    | service => exact hservices.forall he he' (hdifferent rfl)

/-- A reply carries the addresses of the proxy that is found under the name. -/
def Answered (t : Atlas) (l : Lookup) (reply : Value) : Prop :=
  ∃ p, (t.table l.kind).get (.str l.name) = some p ∧
    reply = Kind.answer l.kind p (Lookup.locality host l)

section Ports

variable {host} (hports : ∀ ports, host.bind_to_random_port ports ∉ ports)
include hports

/-- The addresses of a new proxy are new. -/
theorem not_known_newProxy {s : Atlas} {address : String}
    (h : address ∈ (s.newProxy host).addresses) : ¬ Known host s address := by
  simp only [Proxy.addresses, newProxy, List.mem_cons, List.not_mem_nil, or_false] at h
  rcases h with rfl | rfl | rfl | rfl | rfl | rfl
  · rw [known_inprocAddress_iff]
    exact lt_irrefl _
  · rw [known_ipcAddress_iff]
    exact lt_irrefl _
  · rw [known_tcpAddress_iff]
    exact hports _
  · rw [known_inprocAddress_iff]
    exact (Nat.lt_succ_self _).not_gt
  · rw [known_ipcAddress_iff]
    exact (Nat.lt_succ_self _).not_gt
  · rw [known_tcpAddress_iff]
    exact fun hmem => hports _ (List.mem_append_left _ hmem)

/-- The addresses of a new proxy are different. -/
theorem nodup_newProxy (s : Atlas) : (s.newProxy host).addresses.Nodup := by
  have hport := hports (s.ports ++ [host.bind_to_random_port s.ports])
  rw [List.mem_append, List.mem_singleton, not_or] at hport
  have hne := fun i j => (inprocAddress_ne_ipcAddress i host.pid j)
  simp [Proxy.addresses, newProxy, inprocAddress_inj, ipcAddress_inj, tcpAddress_inj,
    inprocAddress_ne_ipcAddress, inprocAddress_ne_tcpAddress, ipcAddress_ne_tcpAddress,
    (inprocAddress_ne_ipcAddress _ _ _).symm, (inprocAddress_ne_tcpAddress _ _ _).symm,
    (ipcAddress_ne_tcpAddress _ _ _ _).symm, Ne.symm hport.2]

/-- A lookup keeps the invariant. -/
theorem named_lookUp {s : Atlas} (hs : Named host s) (kind : Kind) (name : Value) :
    Named host (s.lookUp host kind name).2 := by
  obtain ⟨p, -, hlookup⟩ | ⟨-, hlookup⟩ := lookUp_cases host s kind name
  · rw [hlookup]
    exact hs
  rw [hlookup]
  have hperm := addresses_setTable host s kind name
  have hknown : ∀ {address}, Known host (s.withProxy host kind) address →
      Known host ((s.withProxy host kind).setTable
        (s.table kind ++ [(name, s.newProxy host)]) kind) address := by
    intro address h
    cases kind <;> exact h
  refine ⟨fun address haddress => ?_, ?_, fun kind' e he => ?_⟩
  · refine hknown ?_
    rcases List.mem_append.mp (hperm.subset haddress) with hold | hnew
    · exact (hs.known address hold).mono host (by rw [nextId_withProxy]; omega)
        (ports_withProxy host s kind)
    · exact known_newProxy host kind hnew
  · rw [hperm.nodup_iff, List.nodup_append]
    refine ⟨hs.nodup, nodup_newProxy hports s, fun address hold address' hnew heq => ?_⟩
    exact not_known_newProxy hports hnew (heq ▸ hs.known address hold)
  · have hopened : ∀ {p}, Opened (s.withProxy host kind) kind' p →
        Opened ((s.withProxy host kind).setTable
          (s.table kind ++ [(name, s.newProxy host)]) kind) kind' p := by
      intro p h
      refine h.mono ?_ ?_ <;> cases kind <;> simp [setTable]
    obtain hold | ⟨rfl, rfl⟩ := mem_table_setTable host he
    · exact hopened ((hs.opened kind' e hold).mono (sockets_withProxy host s kind)
        (bound_withProxy host s kind))
    · exact hopened (opened_newProxy host s kind')

/-- Lookups, one after the other: all are answered, and no name that is found changes. -/
theorem run_lookups {messages : List Value} {lookups : List Lookup}
    (h : messages.map lookup? = lookups.map some) {s : Atlas} (hs : Named host s) :
    ∃ t replies, run host messages s = .ok () t ∧ Named host t ∧
      (∀ kind name p, (s.table kind).get name = some p → (t.table kind).get name = some p) ∧
      t.replies = s.replies ++ replies ∧ List.Forall₂ (Answered host t) lookups replies := by
  induction messages generalizing s lookups with
  | nil =>
    obtain rfl := List.map_eq_nil_iff.mp h.symm
    exact ⟨s, [], rfl, hs, fun _ _ _ => id, (List.append_nil _).symm, .nil⟩
  | cons message messages ih =>
    cases lookups with
    | nil => cases h
    | cons l lookups =>
      obtain ⟨hl, hrest⟩ := List.cons.inj h
      obtain ⟨entries, rfl, -⟩ := lookup?_eq_some hl
      obtain ⟨hasked, hlocality⟩ := asked_of_lookup host hl
      -- the round, and the rounds behind it
      have hserve : serve host (.map entries) s =
          .ok () ((s.lookUp host l.kind (.str l.name)).2.replied
            (Kind.answer l.kind (s.lookUp host l.kind (.str l.name)).1
              (Lookup.locality host l))) := by
        simp [serve_map, hasked, hlocality, Value.hashable]
      have hnamed := named_replied host (named_lookUp hports hs l.kind (.str l.name))
        (Kind.answer l.kind (s.lookUp host l.kind (.str l.name)).1 (Lookup.locality host l))
      obtain ⟨t, replies, hrun, ht, hgrows, hreplies, hall⟩ := ih hrest hnamed
      refine ⟨t, Kind.answer l.kind (s.lookUp host l.kind (.str l.name)).1
        (Lookup.locality host l) :: replies, ?_, ht, fun kind name p hp => ?_, ?_,
        .cons ⟨_, ?_, rfl⟩ hall⟩
      · rw [run, List.forM_cons, bind_apply, hserve]
        exact hrun
      · exact hgrows kind name p (get_lookUp_of_found host hp)
      · rw [hreplies, replied, replies_lookUp, List.append_assoc]
        rfl
      · exact hgrows _ _ _ (get_lookUp host s l.kind l.name)

end Ports

/-! ## Consistent names -/

/-- The replies to some lookups. -/
structure Consistent (host : Host) (lookups : List Lookup) (t : Atlas) : Prop where
  /-- Lookups of one name from one locality have the same reply. -/
  same : ∀ (i j : ℕ) l l', lookups[i]? = some l → lookups[j]? = some l' → l.kind = l'.kind →
    l.name = l'.name → Lookup.locality host l = Lookup.locality host l' →
    t.replies[i]? = t.replies[j]?
  /-- Lookups of different names, or of different kinds, have no address in common. -/
  disjoint : ∀ (i j : ℕ) l l' a b a' b', lookups[i]? = some l → lookups[j]? = some l' →
    l.kind ≠ l'.kind ∨ l.name ≠ l'.name →
    t.replies[i]? = some (response l.kind.frontendKey l.kind.backendKey a b) →
    t.replies[j]? = some (response l'.kind.frontendKey l'.kind.backendKey a' b') →
    [a, b].Disjoint [a', b']
  /-- A reply has the addresses that the frontend and the backend of one proxy are bound to. -/
  ends : ∀ (i : ℕ) l, lookups[i]? = some l → ∃ p, (t.table l.kind).get (.str l.name) = some p ∧
    t.replies[i]? = some (response l.kind.frontendKey l.kind.backendKey
      (p.frontendAddress (Lookup.locality host l)) (p.backendAddress (Lookup.locality host l))) ∧
    Opened t l.kind p

/-- The addresses in a reply are addresses of its proxy. -/
theorem mem_addresses_of_answer {kind : Kind} {p : Proxy} {locality : Locality}
    {a b address : String}
    (h : response kind.frontendKey kind.backendKey a b = Kind.answer kind p locality)
    (haddress : address ∈ [a, b]) : address ∈ p.addresses := by
  simp only [Kind.answer, response, Value.map.injEq, List.cons.injEq, Prod.mk.injEq,
    Value.str.injEq, true_and, and_true] at h
  obtain ⟨rfl, rfl⟩ := h
  rw [List.mem_cons, List.mem_singleton] at haddress
  rcases haddress with rfl | rfl
  · exact p.frontendAddress_mem locality
  · exact p.backendAddress_mem locality

theorem consistent_of_answered {host : Host} {lookups : List Lookup} {t : Atlas}
    (ht : Named host t) (h : List.Forall₂ (Answered host t) lookups t.replies) :
    Consistent host lookups t := by
  have hends : ∀ (i : ℕ) l, lookups[i]? = some l → ∃ p,
      (t.table l.kind).get (.str l.name) = some p ∧
        t.replies[i]? = some (Kind.answer l.kind p (Lookup.locality host l)) := by
    intro i l hl
    obtain ⟨hlt, rfl⟩ := List.getElem?_eq_some_iff.mp hl
    have hlt' : i < t.replies.length := h.length_eq ▸ hlt
    obtain ⟨p, hp, hreply⟩ := List.forall₂_iff_get.mp h |>.2 i hlt hlt'
    exact ⟨p, hp, List.getElem?_eq_some_iff.mpr ⟨hlt', hreply⟩⟩
  refine ⟨fun i j l l' hl hl' hkind hname hlocality => ?_, ?_, fun i l hl => ?_⟩
  · obtain ⟨p, hp, hreply⟩ := hends i l hl
    obtain ⟨p', hp', hreply'⟩ := hends j l' hl'
    rw [hkind, hname, hp'] at hp
    rw [hreply, hreply', hkind, hlocality, Option.some.inj hp]
  · intro i j l l' a b a' b' hl hl' hne hreply hreply'
    obtain ⟨p, hp, hanswer⟩ := hends i l hl
    obtain ⟨p', hp', hanswer'⟩ := hends j l' hl'
    intro address haddress haddress'
    refine disjoint_of_ne host ht hp hp' hne (a := address) ?_ ?_
    · exact mem_addresses_of_answer (Option.some.inj (hreply.symm.trans hanswer)) haddress
    · exact mem_addresses_of_answer (Option.some.inj (hreply'.symm.trans hanswer')) haddress'
  · obtain ⟨p, hp, hreply⟩ := hends i l hl
    obtain ⟨e, he, -, rfl⟩ := Dict.exists_mem_of_get_eq_some hp
    exact ⟨e.2, hp, hreply, ht.opened l.kind e he⟩

/-- For every sequence of complete and valid lookups, if `bind_to_random_port` always answers with a
port that is not in use: Atlas answers all of them, and the addresses are consistent. -/
theorem naming_consistent {host : Host} (hports : ∀ ports, host.bind_to_random_port ports ∉ ports)
    {messages : List Value} {lookups : List Lookup}
    (h : messages.map lookup? = lookups.map some) :
    ∃ t, run host messages .init = .ok () t ∧ t.replies.length = messages.length ∧
      Consistent host lookups t := by
  obtain ⟨t, replies, hrun, ht, -, hreplies, hall⟩ := run_lookups hports h (named_init host)
  obtain rfl : replies = t.replies := hreplies.symm
  refine ⟨t, hrun, ?_, consistent_of_answered ht hall⟩
  have hlength := congrArg List.length h
  rw [List.length_map, List.length_map] at hlength
  rw [← hall.length_eq, hlength]

/-- The first port that is greater than all ports in use. -/
def nextPort : List ℕ → ℕ
  | [] => 49152
  | port :: ports => max (port + 1) (nextPort ports)

theorem nextPort_not_mem (ports : List ℕ) : nextPort ports ∉ ports := by
  have hlt : ∀ port ∈ ports, port < nextPort ports := by
    induction ports with
    | nil => exact nofun
    | cons port ports ih =>
      rw [List.forall_mem_cons]
      refine ⟨Nat.le_max_left (port + 1) _, fun port' hmem => ?_⟩
      exact (ih port' hmem).trans_le (Nat.le_max_right _ _)
  exact fun hmem => (hlt _ hmem).false

/-- A channel and a service of one name. -/
theorem naming_consistent_depth :
    ∃ t, run ⟨"10.0.0.1", 7, nextPort⟩
        [.map [(.int 1, .int 1), (.int 2, .str "depth"), (.int 4, .str "10.0.0.1"),
            (.int 5, .int 7)],
          .map [(.int 1, .int 2), (.int 3, .str "depth"), (.int 4, .str "10.0.0.2"),
            (.int 5, .int 9)]]
        .init = .ok () t ∧ t.replies.length = 2 ∧
      Consistent ⟨"10.0.0.1", 7, nextPort⟩
        [⟨.channel, "depth", "10.0.0.1", 7⟩, ⟨.service, "depth", "10.0.0.2", 9⟩] t :=
  naming_consistent nextPort_not_mem rfl

end Atlas

end Guillemot.Roslite
