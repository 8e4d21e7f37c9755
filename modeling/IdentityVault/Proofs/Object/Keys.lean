import IdentityVault.Object.Keys
import IdentityVault.Proofs.Cipher.Sealing
import IdentityVault.Proofs.Object.Saving
import IdentityVault.Proofs.Rsa.KeyFile

/-! Keys in a store of objects. What is saved of a key is its PEM form, or what seals it; either way the key is read
    back, also from a store that is opened again. -/

namespace IdentityVault

namespace KeyStore
variable {s t : KeyStore} {w w' u : FileWorld} {path : String} {key : Rsa.PrivateKey} {mime : MimeType}
  {pem body : Bytes} {c : Sealer}

/-! ### Key files that are locked -/

theorem lock_of_none (hs : s.sealer = none) (pem : Bytes) : s.lock pem = pure (.pem, pem) := by
  rw [lock, hs]

/-- With a sealer, random bytes are drawn and used up. -/
theorem lock_of_some (hs : s.sealer = some c) (pem : Bytes) (w : FileWorld) :
    (s.lock pem).run.trace w = [⟨.random c.mode.seedWidth, w⟩] ∧
      (s.lock pem).run.outcome w =
        ((c.encrypt (w.entropy.take c.mode.seedWidth).1 pem).map fun body => (.octetStream, body),
          { w with entropy := (w.entropy.take c.mode.seedWidth).2 }) := by
  have hlock : (s.lock pem).run = .ask (.random c.mode.seedWidth) fun seed =>
      .done ((c.encrypt seed pem).map fun body => (.octetStream, body)) := by
    rw [lock, hs]
    refine congrArg (Program.ask _) (funext fun seed => ?_)
    simp only [Program.done_bind, Function.comp, ExceptT.bindCont]
    cases c.encrypt seed pem <;> rfl
  rw [hlock]
  exact ⟨rfl, rfl⟩

theorem encrypt_of_lock (hs : s.sealer = some c) (h : (s.lock pem).run.outcome w = (.ok (mime, body), u)) :
    c.encrypt (w.entropy.take c.mode.seedWidth).1 pem = .ok body ∧ mime = .octetStream ∧
      u = { w with entropy := (w.entropy.take c.mode.seedWidth).2 } := by
  rw [(lock_of_some hs pem w).2] at h
  cases he : c.encrypt (w.entropy.take c.mode.seedWidth).1 pem with
  | error e =>
    rw [he] at h
    cases h
  | ok b =>
    rw [he] at h
    cases h
    exact ⟨rfl, rfl, rfl⟩

/-- What is locked can be unlocked, and the clock is not read for it. -/
theorem lock_eq_ok (h : (s.lock pem).run.outcome w = (.ok (mime, body), u)) :
    s.unlock body = .ok pem ∧ u.now = w.now := by
  cases hs : s.sealer with
  | none =>
    rw [lock_of_none hs] at h
    cases h
    exact ⟨by rw [unlock, hs], rfl⟩
  | some c =>
    obtain ⟨he, -, rfl⟩ := encrypt_of_lock hs h
    refine ⟨?_, rfl⟩
    rw [unlock, hs]
    exact Sealer.decrypt_encrypt (Entropy.length_take _ _) he

/-! ### Keys that are saved -/

/-- A key is saved as what becomes of its PEM form. -/
theorem save_eq (hpem : key.serialize .pem = .ok pem) : s.save path key = (s.lock pem).run.bind fun
    | .error e => .done (.error e, s)
    | .ok (mime, body) => (s.objects.save path mime body).bind fun p => .done (p.1, { s with objects := p.2 }) := by
  rw [save, hpem]
  rfl

theorem save_eq_ok (h : (s.save path key).outcome w = ((.ok (), t), w')) : ∃ pem mime body u,
    key.serialize .pem = .ok pem ∧ (s.lock pem).run.outcome w = (.ok (mime, body), u) ∧
      (s.objects.save path mime body).outcome u = ((.ok (), t.objects), w') ∧ t.sealer = s.sealer ∧
      (s.save path key).trace w = (s.lock pem).run.trace w ++ (s.objects.save path mime body).trace u := by
  cases hpem : key.serialize .pem with
  | error e =>
    rw [save, hpem] at h
    cases h
  | ok pem =>
    rw [save_eq hpem, Program.trace_bind]
    rw [save_eq hpem, Program.outcome_bind] at h
    cases hlock : (s.lock pem).run.outcome w with
    | mk r u =>
      rw [hlock] at h
      cases r with
      | error e => cases h
      | ok locked =>
        obtain ⟨mime, body⟩ := locked
        simp only [Program.outcome_bind, Program.outcome_done] at h
        cases hsave : (s.objects.save path mime body).outcome u with
        | mk p v =>
          rw [hsave] at h
          obtain ⟨r, objects⟩ := p
          cases h
          refine ⟨pem, mime, body, u, rfl, hlock, hsave, rfl, ?_⟩
          simp only [Program.trace_bind, Program.trace, List.append_nil]

/-- Reading a key from a store that yields what its sealer makes the PEM form of. -/
theorem read_of_get (hget : (s.objects.get path).run.outcome w = (.ok body, w)) (hopen : s.unlock body = .ok pem)
    (hpem : key.serialize .pem = .ok pem) : (s.read path).run.outcome w = (.ok key, w) := by
  have hparse : (do Rsa.PrivateKey.parse (← s.unlock body)) = .ok key := by
    rw [hopen]
    exact Rsa.PrivateKey.parse_of_serialize_pem hpem
  rw [read, FileAction.outcome_bind_of_ok _ hget, hparse]
  rfl

/-- A key that was saved is there under its path and is read back, from the store in use and from one that is opened
    again. Without a sealer its PEM form is stored, as a PEM file. With one, nothing is stored but a message that opens
    to the PEM form, as bytes without a known structure. -/
theorem read_of_save {s t : KeyStore} {w w' : FileWorld} {path : String} {key : Rsa.PrivateKey}
    (hdated : s.objects.index.Dated) (hnow : w.now.Valid) (h : (s.save path key).outcome w = ((.ok (), t), w')) :
    ∃ pem body : Bytes, key.serialize .pem = .ok pem ∧ (t.objects.get path).run.outcome w' = (.ok body, w') ∧
      (s.sealer = none → body = pem ∧ (s.save path key).trace w = (s.objects.save path .pem pem).trace w ∧
        (t.objects.metadata path).map ObjectMeta.contentType = some "application/x-pem-file") ∧
      (∀ c, s.sealer = some c → c.decrypt body = .ok pem ∧
        (∃ seed u, c.encrypt seed pem = .ok body ∧ (s.save path key).trace w =
          ⟨.random c.mode.seedWidth, w⟩ :: (s.objects.save path .octetStream body).trace u) ∧
        (t.objects.metadata path).map ObjectMeta.contentType = some "application/octet-stream") ∧
      (t.read path).run.outcome w' = (.ok key, w') ∧
      ∃ objects, (ObjectStore.load s.objects.dir).run.outcome w' = (.ok objects, w') ∧
        (read ⟨objects, s.sealer⟩ path).run.outcome w' = (.ok key, w') := by
  obtain ⟨pem, mime, body, u, hpem, hlock, hsave, hsealer, htrace⟩ := save_eq_ok h
  obtain ⟨hopen, hu⟩ := lock_eq_ok hlock
  obtain ⟨-, hrow, hget, hload⟩ := ObjectStore.save_eq_ok hdated (hu ▸ hnow) hsave
  have hread {r : KeyStore} (hr : r.objects = t.objects) (hrs : r.sealer = s.sealer) :
      (r.read path).run.outcome w' = (.ok key, w') :=
    read_of_get (hr ▸ hget) (by rw [unlock, hrs]; exact hopen) hpem
  refine ⟨pem, body, hpem, hget, fun hs => ?_, fun c hs => ?_, hread rfl hsealer, t.objects, hload, hread rfl rfl⟩
  · rw [lock_of_none hs] at hlock htrace
    cases hlock
    exact ⟨rfl, htrace, by rw [hrow]; rfl⟩
  · obtain ⟨he, rfl, rfl⟩ := encrypt_of_lock hs hlock
    rw [(lock_of_some hs pem w).1] at htrace
    rw [unlock, hs] at hopen
    exact ⟨hopen, ⟨_, _, he, htrace⟩, by rw [hrow]; rfl⟩

/-- A key of eight bits that is sealed and saved in a new store. -/
theorem read_of_save_sealed : ∃ (s t : KeyStore) (w w' : FileWorld) (key : Rsa.PrivateKey) (c : Sealer),
    s.sealer = some c ∧ s.objects.index.Dated ∧ w.now.Valid ∧ (s.save "keys/a.pem" key).outcome w = ((.ok (), t), w') ∧
      (t.read "keys/a.pem").run.outcome w' = (.ok key, w') ∧
      ∃ pem body, c.decrypt body = .ok pem ∧ (t.objects.get "keys/a.pem").run.outcome w' = (.ok body, w') := by
  let key : Rsa.PrivateKey := ⟨143, 7, 43, 11, 13, by decide⟩
  let c : Sealer := ⟨.gcm, ⟨Vector.replicate 32 0⟩⟩
  let s : KeyStore := ⟨⟨"store".toList, .empty⟩, some c⟩
  let w : FileWorld := ((ObjectStore.load "store".toList).run.outcome (.new [] (.ofSeed []) ⟨0, 0⟩)).2
  have hnow : w.now.Valid := by decide +kernel
  have hok : ((s.save "keys/a.pem" key).outcome w).1.1 = .ok () := by decide +kernel
  have hsave : (s.save "keys/a.pem" key).outcome w =
      ((.ok (), ((s.save "keys/a.pem" key).outcome w).1.2), ((s.save "keys/a.pem" key).outcome w).2) :=
    Prod.ext (Prod.ext hok rfl) rfl
  obtain ⟨pem, body, -, hget, -, hsealed, hread, -⟩ := read_of_save ObjectIndex.dated_empty hnow hsave
  exact ⟨s, _, w, _, key, c, rfl, ObjectIndex.dated_empty, hnow, hsave, hread, pem, body, (hsealed c rfl).1, hget⟩

end KeyStore
end IdentityVault
