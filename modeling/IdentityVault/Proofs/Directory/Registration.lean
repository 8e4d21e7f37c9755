import IdentityVault.Proofs.Directory.Traffic

/-! Registration is atomic: with any number of calls in flight, whatever fails and whenever they take their turns, an
    identity and its credential are published by one commit, or nothing of a registration is. -/

namespace IdentityVault

/-! ### Identities and their credentials -/

namespace Tables
variable {t : Tables}

/-- Every identity has a credential. -/
def Full (t : Tables) : Prop := ∀ k u, t.users.get? k = some u → ∃ c, t.credentials.get? k = some c

theorem Full.empty : Tables.empty.Full := nofun

theorem Full.register (h : t.Full) {u : User} {c : Credential} (hc : c.user = u.id) :
    ((t.putUser u).putCredential c).Full := by
  intro k v hv
  rw [get?_credentials_putCredential, hc]
  split
  · exact ⟨c, rfl⟩
  · next hk =>
    have hold : (t.putUser u).users.get? k = some v := hv
    rw [get?_users_putUser, if_neg hk] at hold
    exact h k v hold

theorem Full.putCredential (h : t.Full) (c : Credential) : (t.putCredential c).Full := by
  intro k v hv
  rw [get?_credentials_putCredential]
  split
  · exact ⟨c, rfl⟩
  · exact h k v hv

/-- Every identity has exactly one credential, and every credential belongs to an identity. -/
structure Paired (t : Tables) : Prop where
  credential : ∀ u ∈ t.users.rows, ∃! c, c ∈ t.credentials.rows ∧ c.user = u.id
  owner : ∀ c ∈ t.credentials.rows, ∃ u ∈ t.users.rows, u.id = c.user

theorem Full.paired (h : t.Full) (hs : t.Sound) : t.Paired where
  credential u hu := by
    obtain ⟨k, hk⟩ := Table.mem_rows.mp hu
    obtain rfl := hs.userKey hk
    obtain ⟨c, hc⟩ := h _ u hk
    refine ⟨c, ⟨Table.mem_rows.mpr ⟨_, hc⟩, hs.credentialKey hc⟩, ?_⟩
    rintro c' ⟨hc', huser⟩
    obtain ⟨k', hk'⟩ := Table.mem_rows.mp hc'
    obtain rfl := hs.credentialKey hk'
    rw [huser, hc] at hk'
    exact (Option.some.inj hk').symm
  owner c hc := by
    obtain ⟨k, hk⟩ := Table.mem_rows.mp hc
    obtain ⟨u, hu⟩ := hs.owner hk
    exact ⟨u, Table.mem_rows.mpr ⟨_, hu⟩, hs.userKey hu⟩

end Tables

theorem Directory.Call.Publishes.full {fits : Verifier} {call : Call} {reply : Session.Reply} {start t t' : Tables}
    {log : List Write} (h : call.Publishes fits reply start log) (ht : t.Full) (hr : t.replay log = .ok t') :
    t'.Full := by
  rw [Tables.eq_puts_of_replay hr]
  cases call with
  | create name email password =>
    obtain ⟨u, c, -, -, -, hc, rfl⟩ := h
    exact ht.register hc
  | change email current new =>
    obtain ⟨owner, old, c, -, -, -, -, -, -, rfl⟩ := h
    exact ht.putCredential c
  | get | find | authenticate =>
    cases h
    exact ht

/-! ### Calls in flight -/

namespace Traffic
variable {fits : Verifier} {start : Database} {traffic : Traffic} {stage : Nat → Stage}

theorem Steered.full (h : Steered fits start traffic stage) (hstart : start.tables.Full) :
    traffic.database.tables.Full := by
  have htables := start.tables_along traffic.trace
  rw [← h.database] at htables
  refine foldlM_keeps_of_mem (P := Tables.Full) (fun {t log t'} hm ht hr => ?_) hstart htables
  obtain ⟨⟨i, log⟩, he, rfl⟩ := List.mem_map.mp hm
  obtain ⟨call, reply, tables, -, hp⟩ := (h.course i).ok_of_published (Database.mem_publishedBy.mpr he)
  exact hp.full ht hr

/-- What calls in flight have made of registrations so far. -/
structure Registered (fits : Verifier) (start : Database) (traffic : Traffic) : Prop where
  /-- The shared tables are what the calls have published. -/
  shared : ((start.publications traffic.trace).map (·.2)).foldlM Tables.replay start.tables =
    .ok traffic.database.tables
  paired : traffic.database.tables.Paired
  success : ∀ {i name email password rest}, traffic.calls[i]? = some ⟨.create name email password, rest⟩ →
    ∀ u, rest = .done (.ok (.user u)) ↔
      ∃ c, c.user = u.id ∧ start.publishedBy i traffic.trace = [[.insertUser u, .insertCredential c]]
  /-- A registration that failed never gets anything into the tables. -/
  failure : ∀ {i name email password f}, traffic.calls[i]? = some ⟨.create name email password, .done (.error f)⟩ →
    ∀ more, ∀ e ∈ start.publications (traffic.after fits more).trace, e.1 ≠ i

/-- On a fresh database, identities and credentials are registered together or not at all. -/
theorem registered_after (fits : Verifier) (capacity : Nat) (turns : List Turn) :
    Registered fits (.new capacity) ((new (.new capacity)).after fits turns) := by
  have hn := Database.Named.new capacity
  have hs := Database.Sound.new capacity
  obtain ⟨stage, h⟩ := steered_after fits hn hs turns
  have hsound := (hs.along hn ((new (.new capacity)).after fits turns).trace).tables
  rw [← h.database] at hsound
  refine ⟨h.database ▸ Database.tables_along _ _, (h.full Tables.Full.empty).paired hsound, ?_, ?_⟩
  · intro i name email password rest hu u
    constructor
    · rintro rfl
      obtain ⟨tables, log, hlog, u', c, hreply, -, -, hc, rfl⟩ := (h.course i).published_of_ok hu
      cases hreply
      exact ⟨c, hc, hlog⟩
    · rintro ⟨c, -, hlog⟩
      obtain ⟨call, reply, tables, hu', hp⟩ := (h.course i).ok_of_published (hlog ▸ List.mem_singleton.mpr rfl)
      cases hu.symm.trans hu'
      obtain ⟨u', c', rfl, -, -, -, hsame⟩ := hp
      cases hsame
      rfl
  · rintro i name email password f hu more ⟨j, log⟩ he rfl
    obtain ⟨stage', h'⟩ := steered_after fits hn hs (turns ++ more)
    rw [after_append] at h'
    have hnone := (h'.course j).published_of_error (done_after more hu)
    have hlog := Database.mem_publishedBy.mpr he
    rw [hnone] at hlog
    cases hlog

end Traffic
end IdentityVault
