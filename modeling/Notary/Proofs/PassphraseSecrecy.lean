import Notary.Proofs.DropGuard
import Notary.Proofs.Exposure
import Notary.Proofs.Likeness
import Notary.Proofs.VaultCourse

/-! Passphrases do not show. A request goes by how its account takes each of them, and by nothing
else that is in them: where the account takes those of two configurations alike, the requests cannot
be told apart, whenever they are dropped; nor can the configurations, by their texts. That holds of
accounts that give nothing of a passphrase away themselves. A vault is one, and takes them alike if
the first that opens it has the same place. -/

namespace Notary

theorem Exchange.SparesLock.unlocking? {x : Exchange} (h : x.SparesLock) :
    x.unlocking? = none := by
  unfold Exchange.unlocking?
  split
  · exact absurd (h _ rfl) nofun
  · rfl

namespace Session
open Process
variable {c c' : Config}

theorem alike_tryPassphrases (account : String) (t : Duration) {ps qs : List Passphrase}
    (hn : ps.length = qs.length) (attempt : Nat) :
    Alike (tryPassphrases account t attempt ps) (tryPassphrases account t attempt qs) := by
  induction ps generalizing qs attempt with
  | nil =>
    cases List.length_eq_zero_iff.1 hn.symm
    exact .refl _
  | cons p ps ih =>
    cases qs with
    | nil => cases hn
    | cons q qs =>
      unfold tryPassphrases
      refine .bind (.bounded_unlock p.bytes q.bytes t none) fun result => ?_
      cases result with
      | ok u => exact .refl _
      | error e =>
        cases e with
        | timedOut operation after => exact .refl _
        | failed operation source => exact .bind (.refl _) fun _ => ih (Nat.succ.inj hn) _

theorem alike_unlock (account : String) (ht : c.timeout = c'.timeout)
    (hn : c.passphrases.length = c'.passphrases.length) :
    Alike (unlock account c) (unlock account c') := by
  unfold unlock
  rw [ht]
  refine .bind (.refl _) fun offered => ?_
  cases offered with
  | false => exact .refl _
  | true =>
    refine .bind (.refl _) fun result => ?_
    cases result with
    | error e => exact .refl _
    | ok unlocked =>
      cases unlocked with
      | true => exact .refl _
      | false => exact alike_tryPassphrases account c'.timeout hn 0

theorem alike_begin (account : String) (ht : c.timeout = c'.timeout)
    (hn : c.passphrases.length = c'.passphrases.length) :
    Alike (Session.begin account c) (Session.begin account c') := by
  unfold Session.begin
  rw [ht]
  exact .bind (alike_unlock account ht hn) fun _ => .refl _

theorem Relocking.unlocking?_eq_none {t : Duration} {session : Option Session} {xs : List Exchange}
    {ending : Ending (Except CallError Unit)} (h : Relocking t session xs ending) :
    ∀ x ∈ xs, x.unlocking? = none := by
  cases h with
  | withdrawn => exact List.forall_mem_singleton.2 rfl
  | ended w o => exact List.forall_mem_cons.2 ⟨rfl, List.forall_mem_singleton.2 rfl⟩
  | pending w => exact List.forall_mem_cons.2 ⟨rfl, List.forall_mem_singleton.2 rfl⟩

theorem unlocking?_abandon {σ : Type} [Account σ] (account : String) (session : Option Session)
    (s : σ) : ∀ x ∈ ((abandon account session).run none s).exchanges, x.unlocking? = none := by
  have hx := run_leads (abandon account session) none s
  unfold abandon at hx ⊢
  split at hx
  · exact List.forall_mem_nil _
  · obtain ⟨e, hl, -⟩ := leads_relockReporting (leads_emit hx)
    exact hl.unlocking?_eq_none

end Session

namespace Process
open Session (Unlocking Relocking)
variable {c c' : Config}

theorem alike_signInSession (account : String) (order : Order) (ht : c.timeout = c'.timeout)
    (hn : c.passphrases.length = c'.passphrases.length) :
    Alike (signInSession account c order) (signInSession account c' order) := by
  unfold signInSession
  exact .bind (Session.alike_begin account ht hn) fun _ => .refl _

theorem alike_signRoot (account : String) (root : Root) (domain : Domain)
    (ht : c.timeout = c'.timeout) (hn : c.passphrases.length = c'.passphrases.length) :
    Alike (signRoot account c root domain) (signRoot account c' root domain) := by
  unfold signRoot Config.validate
  rw [ht]
  split
  · exact .refl _
  · refine .bind (.refl _) fun found => ?_
    cases found.protectingSigner with
    | true => exact alike_signInSession account _ ht hn
    | false =>
      refine .bind (.refl _) fun _ => ?_
      cases found.signer with
      | true => exact alike_signInSession account _ ht hn
      | false => exact .refl _

theorem alike_signPayload (account : String) (payload : Payload) (domain : Domain)
    (ht : c.timeout = c'.timeout) (hn : c.passphrases.length = c'.passphrases.length) :
    Alike (signPayload account c payload domain) (signPayload account c' payload domain) := by
  unfold signPayload
  split
  · exact .refl _
  · exact .report _ (alike_signRoot account _ domain ht hn)

theorem InSession.unlocking_append {account : String} {order : Order} {xs : List Exchange}
    {ending : Ending (Except Error Signature)} (h : InSession account c order xs ending) :
    ∃ as bs e, xs = as ++ bs ∧ Unlocking account c as e ∧ ∀ x ∈ bs, x.unlocking? = none := by
  obtain ⟨as, bs, cs, e, rfl, hu, hb, hc⟩ := h.parts
  refine ⟨as, bs ++ cs, e, List.append_assoc as bs cs, hu, List.forall_mem_append.2 ⟨?_, ?_⟩⟩
  · rcases hb with rfl | ⟨s, e, hg⟩
    · exact List.forall_mem_nil _
    · exact fun x hm => (hg.sparesLock x hm).1.unlocking?
  · rcases hc with rfl | ⟨session, e, hl⟩
    · exact List.forall_mem_nil _
    · exact hl.unlocking?_eq_none

end Process

namespace Config
variable {c c' : Config}

theorem brief_congr (ht : c.timeout = c'.timeout)
    (hn : c.passphrases.length = c'.passphrases.length) : c.brief = c'.brief := by
  have hb : ∀ ps : List Passphrase,
      ps.map Passphrase.brief = List.replicate ps.length "Passphrase(<redacted>)" := fun _ =>
    List.map_const'
  unfold brief
  rw [ht, hb, hb, hn]

end Config

namespace Vault
open Account Process Session
variable {v v' : Vault} {xs ys : List Exchange}

theorem unlock_congr {p q : List UInt8} (h : (v.unlock p).2 = (v.unlock q).2) :
    v.unlock p = v.unlock q := by
  cases hh : v.passphraseHash with
  | none =>
    unfold unlock
    rw [hh]
  | some hash =>
    rw [unlock_of_hash hh, unlock_of_hash hh] at h ⊢
    by_cases hp : hash = hashPassphrase p <;> by_cases hq : hash = hashPassphrase q
    · rw [if_pos hp, if_pos hq]
    · rw [if_pos hp, if_neg hq] at h
      cases h
    · rw [if_neg hp, if_pos hq] at h
      cases h
    · rw [if_neg hp, if_neg hq]

theorem discreet : Discreet (Eq (α := Vault)) where
  offers := by
    rintro v _ c rfl
    exact ⟨rfl, rfl⟩
  attempt := by
    rintro v _ r hr rfl
    exact .of_eq rfl
  unlock := by
    rintro v _ p q rfl - hr
    have hu : (v.unlock p).1 = (v.unlock q).1 := congrArg Prod.fst (unlock_congr hr)
    exact ⟨rfl, hu, rfl, rfl, hu, hr⟩

def opensBy (v : Vault) (p : Passphrase) : Bool :=
  v.passphraseHash == some (hashPassphrase p.bytes)

/-- How a vault takes passphrases that are tried on it in order. -/
def tries (v : Vault) : List Passphrase → List (Wait × Except AccountError Unit)
  | [] => []
  | p :: ps =>
    if v.opensBy p then [(.lasting 0, .ok ())]
    else (.lasting 0, .error .incorrectPassphrase) :: v.tries ps

/-- Only the place of the first passphrase that is the vault's shows in how it takes them. -/
theorem tries_congr {ps qs : List Passphrase} (hn : ps.length = qs.length)
    (h : ps.findIdx? v.opensBy = qs.findIdx? v.opensBy) : v.tries ps = v.tries qs := by
  -- A place in the tail is not the first one.
  have later : ∀ o : Option Nat, o.map (· + 1) ≠ some 0 := by
    intro o
    cases o <;> simp
  induction ps generalizing qs with
  | nil => rw [List.length_eq_zero_iff.1 hn.symm]
  | cons p ps ih =>
    cases qs with
    | nil => cases hn
    | cons q qs =>
      rw [List.findIdx?_cons, List.findIdx?_cons] at h
      unfold tries
      cases hp : v.opensBy p <;> cases hq : v.opensBy q <;> rw [hp, hq] at h
      · have ht := Option.map_injective (fun _ _ => Nat.succ.inj) h
        rw [ih (Nat.succ.inj hn) ht]
      · exact absurd h (later _)
      · exact absurd h.symm (later _)
      · rfl

theorem result_unlock (hv : v.Lockable) (p : Passphrase) :
    (v.unlock p.bytes).2 = if v.opensBy p then .ok () else .error .incorrectPassphrase := by
  obtain ⟨hash, hh⟩ := Option.isSome_iff_exists.1 hv
  rw [unlock_of_hash hh, opensBy, hh]
  by_cases he : hash = hashPassphrase p.bytes <;> simp [he]

theorem unlockings_cons (hv : v.Lockable) (p : Passphrase) (t : Duration) (w : Wait)
    (o : Option (Outcome Unit)) (xs : List Exchange) :
    unlockings v (.call ⟨.unlock p.bytes, t, w, o⟩ :: xs) =
      (.lasting 0, if v.opensBy p then .ok () else .error .incorrectPassphrase) ::
        unlockings (v.unlock p.bytes).1 xs := by
  have hn : (Exchange.call ⟨.unlock p.bytes, t, w, o⟩).next v = (v.unlock p.bytes).1 :=
    next_call v ⟨.unlock p.bytes, t, w, o⟩
  rw [unlockings, hn, ← result_unlock hv]
  rfl

theorem unlockings_try (hv : v.Lockable) (p : Passphrase) (t : Duration) (w : Wait)
    (o : Option (Outcome Unit)) (ps : List Passphrase) :
    unlockings v [.call ⟨.unlock p.bytes, t, w, o⟩] <+: v.tries (p :: ps) := by
  rw [unlockings_cons hv, unlockings, tries]
  cases v.opensBy p with
  | true => exact List.prefix_refl _
  | false => exact List.cons_prefix_cons.2 ⟨rfl, List.nil_prefix⟩

theorem unlockings_refused {t : Duration} {qs rest : List Passphrase} (hv : v.Lockable)
    (h : Refused t qs xs) (hp : Passes v xs v') (hy : unlockings v ys <+: v.tries rest) :
    unlockings v (xs ++ ys) <+: v.tries (qs ++ rest) := by
  induction h with
  | nil => exact hy
  | cons p w e h ih =>
    have hr : (v.unlock p.bytes).2 = .error e := result_of_refused hp.1
    have hn : (v.unlock p.bytes).1 = v := unlock_of_error hr
    have hx : (Exchange.ended (.unlock p.bytes) t w (.refused e)).next v = v :=
      (next_call v ⟨.unlock p.bytes, t, w, some (.refused e)⟩).trans hn
    have ho : v.opensBy p = false := by
      rw [result_unlock hv] at hr
      cases ho : v.opensBy p with
      | false => rfl
      | true =>
        rw [ho] at hr
        cases hr
    rw [List.cons_append, Exchange.ended, unlockings_cons hv, hn, List.cons_append, tries, ho]
    exact List.cons_prefix_cons.2 ⟨rfl, ih (hx ▸ hp.2)⟩

theorem unlockings_trying {account : String} {t : Duration} {ps : List Passphrase} {attempt : Nat}
    {ending : Ending (Except Error UnlockState)} (hv : v.Lockable)
    (h : Trying account t ps attempt xs ending) (hp : Passes v xs v') :
    unlockings v xs <+: v.tries ps := by
  cases h with
  | exhausted h =>
    have hx : unlockings v (xs ++ []) <+: v.tries (ps ++ []) :=
      unlockings_refused hv h hp (List.prefix_refl [])
    rwa [List.append_nil, List.append_nil] at hx
  | unlocked w hps h =>
    obtain ⟨v₁, h₁, -⟩ := passes_append.1 hp
    rw [hps]
    exact unlockings_refused hv h h₁ (unlockings_try hv _ t w _ _)
  | expired w hps h hl he =>
    obtain ⟨v₁, -, h₂⟩ := passes_append.1 hp
    exact absurd h₂.1 not_expired
  | pending w hps h =>
    obtain ⟨v₁, h₁, -⟩ := passes_append.1 hp
    rw [hps]
    exact unlockings_refused hv h h₁ (unlockings_try hv _ t w none _)

variable {account : String} {c : Config}

theorem unlockings_unlocking {ending : Ending (Except Error UnlockState)}
    (h : Unlocking account c xs ending) (hp : Passes v xs v') :
    unlockings v xs <+: v.tries c.passphrases := by
  cases h with
  | @locked xs _ w h =>
    obtain ⟨hv, -, hx⟩ := eq_of_query hp
    have hn : (Exchange.ended .isUnlocked c.timeout w (.returned false)).next v = v :=
      next_call v ⟨.isUnlocked, c.timeout, w, some (.returned false)⟩
    have hu : unlockings ((Exchange.ended .isUnlocked c.timeout w (.returned false)).next v) xs <+:
        v.tries c.passphrases := by
      rw [hn]
      exact unlockings_trying hv h hx
    exact hu
  | _ => exact List.nil_prefix

theorem unlockings_inSession {order : Order} {ending : Ending (Except Error Signature)}
    (h : InSession account c order xs ending) (hp : Passes v xs v') :
    unlockings v xs <+: v.tries c.passphrases := by
  obtain ⟨as, bs, e, rfl, hu, hb⟩ := h.unlocking_append
  obtain ⟨v₁, h₁, -⟩ := passes_append.1 hp
  rw [unlockings_append h₁, unlockings_eq_nil hb, List.append_nil]
  exact unlockings_unlocking hu h₁

theorem unlockings_ofRoot {root : Root} {domain : Domain} {ending : Ending (Except Error Signature)}
    (h : OfRoot account c root domain xs ending) (hp : Passes v xs v') :
    unlockings v xs <+: v.tries c.passphrases := by
  cases h with
  | zeroTimeout h => exact List.nil_prefix
  | incapable h l => exact List.nil_prefix
  | protecting h l g hi =>
    have hx := unlockings_inSession hi hp.2.2.2
    exact hx
  | plain h l hi =>
    have hx := unlockings_inSession hi hp.2.2.2
    exact hx

theorem unlockings_signPayload (account : String) (c : Config) (payload : Payload) (domain : Domain)
    (left : Option Nat) (v : Vault) :
    unlockings v ((signPayload account c payload domain).run left v).exchanges <+:
      v.tries c.passphrases := by
  unfold signPayload
  cases payload.root with
  | error e => exact List.nil_prefix
  | ok root =>
    have hp := run_passes (signRoot account c root domain) left v
    exact unlockings_ofRoot (leads_signRoot (run_leads (signRoot account c root domain) left v)) hp

end Vault

theorem Behaviour.attempt_congr {σ β : Type} {b : Behaviour} {s : σ} {w w' : Behaviour.Work σ β}
    (hw : w.2.2 = w'.2.2 → w = w') (h : (b.attempt s w).result = (b.attempt s w').result) :
    b.attempt s w = b.attempt s w' := by
  obtain ⟨wait, worksFirst, failure⟩ := b
  -- A behaviour that fails does not do its work; any other shows the result of it.
  cases worksFirst <;> cases failure
  · exact congrArg _ (hw h)
  · rfl
  · exact congrArg _ (hw h)
  · rfl

namespace Scripted
open Account

theorem work_unlock_congr {s : Scripted} {p q : List UInt8}
    (h : (work (.unlock p) s).2.2 = (work (.unlock q) s).2.2) :
    work (.unlock p) s = work (.unlock q) s := by
  by_cases hp : p = s.passphrase <;> by_cases hq : q = s.passphrase
  · rw [hp, hq]
  · rw [hp, work_unlock_self, work_unlock_of_ne hq] at h
    cases h
  · rw [hq, work_unlock_self, work_unlock_of_ne hp] at h
    cases h
  · rw [work_unlock_of_ne hp, work_unlock_of_ne hq]

theorem attempt_unlock_congr {s : Scripted} {p q : List UInt8}
    (h : (Account.attempt (.unlock p) s).result = (Account.attempt (.unlock q) s).result) :
    (Account.attempt (.unlock p) s : Attempt Scripted Unit) = Account.attempt (.unlock q) s := by
  rw [attempt_eq, attempt_eq] at h ⊢
  exact Behaviour.attempt_congr work_unlock_congr h

theorem discreet : Discreet (Eq (α := Scripted)) where
  offers := by
    rintro s _ c rfl
    exact ⟨rfl, rfl⟩
  attempt := by
    rintro s _ r hr rfl
    exact .of_eq rfl
  unlock := by
    rintro s _ p q rfl - hr
    exact .of_eq (attempt_unlock_congr hr)

end Scripted

/-- Neither the run nor what follows it tells the one from the other. -/
structure Run.Unrevealing {σ α : Type} [Account σ] (R : σ → σ → Prop) (account : String)
    (r u : Run σ α) : Prop where
  request : r.Indistinct R u
  aftermath : ((r.aftermath account).run none r.account).Indistinct R
    ((u.aftermath account).run none u.account)

theorem Run.Indistinct.unrevealing {σ α : Type} [Account σ] {R : σ → σ → Prop} {r u : Run σ α}
    (h : r.Indistinct R u) (hR : Account.Discreet R) (account : String) :
    r.Unrevealing R account u := by
  refine ⟨h, ?_⟩
  have ha : u.aftermath account = r.aftermath account := by
    rw [Run.aftermath, Run.aftermath, h.ending]
  have hn : ∀ s : σ, Account.unlockings s ((r.aftermath account).run none s).exchanges = [] := by
    intro s
    refine Account.unlockings_eq_nil ?_
    unfold Run.aftermath
    split
    · exact List.forall_mem_nil _
    · exact Session.unlocking?_abandon account _ s
  rw [ha]
  refine (Process.Alike.refl _).run_indistinct hR h.account ?_
  rw [hn, hn]
  exact Or.inl (List.prefix_refl _)

namespace Process
open Account

/-- The two configurations cannot be told apart by what is done with them. -/
structure Confidential (c c' : Config) (payload : Payload) (domain : Domain) : Prop where
  texts : c.brief = c'.brief ∧ c.signerBrief = c'.signerBrief
  /-- Whatever an account answers, it is asked the same next, but for what it is unlocked with. -/
  alike : ∀ account,
    Alike (signPayload account c payload domain) (signPayload account c' payload domain)
  /-- All of a request can be seen, and it shows nothing if the account takes the unlocks under both
  the same, as far as both go. -/
  unrevealing : ∀ {σ : Type} [Account σ] {R : σ → σ → Prop} (s : σ) (left : Option Nat),
    Discreet R → R s s →
    let r := (signPayload (Account.name s) c payload domain).run left s
    let u := (signPayload (Account.name s) c' payload domain).run left s
    Concur (unlockings s r.exchanges) (unlockings s u.exchanges) →
      r.Unrevealing R (Account.name s) u
  vault : ∀ (v : Vault) (left : Option Nat),
    c.passphrases.findIdx? v.opensBy = c'.passphrases.findIdx? v.opensBy →
    Run.Unrevealing Eq (Account.name v) ((signPayload (Account.name v) c payload domain).run left v)
      ((signPayload (Account.name v) c' payload domain).run left v)

theorem signPayload_confidential {c c' : Config} (ht : c.timeout = c'.timeout)
    (hn : c.passphrases.length = c'.passphrases.length) (payload : Payload) (domain : Domain) :
    Confidential c c' payload domain := by
  have halike := fun account => alike_signPayload account payload domain ht hn
  have hb := Config.brief_congr ht hn
  have hs : c.signerBrief = c'.signerBrief := by
    unfold Config.signerBrief
    rw [hb]
  refine ⟨⟨hb, hs⟩, halike, ?_, ?_⟩
  · intro σ _ R s left hR hs r u hu
    exact ((halike _).run_indistinct hR hs hu).unrevealing hR _
  · intro v left hv
    have hc := Vault.unlockings_signPayload (Account.name v) c payload domain left v
    have hc' := Vault.unlockings_signPayload (Account.name v) c' payload domain left v
    rw [← Vault.tries_congr hn hv] at hc'
    have hx := (halike (Account.name v)).run_indistinct Vault.discreet rfl (.of_isPrefix hc hc')
    exact hx.unrevealing Vault.discreet _

end Process

/-- Takes any passphrase, and repeats it where it should sign, until it is locked again. -/
structure Parrot where
  heard : Option (List UInt8)

namespace Parrot

def repeated (s : Parrot) : Except AccountError Signature :=
  match s.heard with
  | none => .error .locked
  | some passphrase => .error (.other (Hex.text passphrase) none)

instance : Account Parrot where
  name _ := "parrot"
  publicKey _ := none
  compositeKey _ := none
  offers _ s := (true, s)
  attempt
    | .isUnlocked, s => .immediate [] s (.ok s.heard.isSome)
    | .unlock passphrase, _ => .immediate [] ⟨some passphrase⟩ (.ok ())
    | .lock, _ => .immediate [] ⟨none⟩ (.ok ())
    | .sign _, s => .immediate [] s s.repeated
    | .signGeneric _ _, s => .immediate [] s s.repeated

end Parrot

namespace Process
open Account Scripted

/-- That an account answers all unlocks alike is not enough. It may give away later what it was
unlocked with; and where it never answers, one unlock may have worked and the other not. -/
theorem signPayload_tells_apart :
    let c : Config := ⟨.ofSeconds 1, [⟨[]⟩]⟩
    let c' : Config := ⟨.ofSeconds 1, [⟨[1]⟩]⟩
    let domain : Domain := ⟨Octets.zero 32⟩
    let parrot : Parrot := ⟨none⟩
    let r := (signPayload "parrot" c .unit domain).run none parrot
    let r' := (signPayload "parrot" c' .unit domain).run none parrot
    let u := (signPayload "a" c .unit domain).run none unheard
    let u' := (signPayload "a" c' .unit domain).run none unheard
    c.timeout = c'.timeout ∧ c.passphrases.length = c'.passphrases.length ∧
      (unlockings parrot r.exchanges = unlockings parrot r'.exchanges ∧ r.ending ≠ r'.ending) ∧
      u.exchanges.map Exchange.redacted = u'.exchanges.map Exchange.redacted ∧
        u.account.unlocked = true ∧ u'.account.unlocked = false := by
  intro c c' domain parrot r r' u u'
  have hr : unlockings parrot r.exchanges = [(.lasting 0, .ok ())] := rfl
  have hr' : unlockings parrot r'.exchanges = [(.lasting 0, .ok ())] := rfl
  have hne : r.ending ≠ r'.ending := by
    have he : r.ending = .finished (.error (.signing (.other "" none))) := rfl
    have he' : r'.ending = .finished (.error (.signing (.other "01" none))) := rfl
    simp [he, he']
  have hx : u.exchanges.map Exchange.redacted = u'.exchanges.map Exchange.redacted := rfl
  exact ⟨rfl, rfl, ⟨hr.trans hr'.symm, hne⟩, hx, rfl, rfl⟩

end Process

namespace Scripted
open Process

/-- Locked under the passphrase `1`. -/
def guarded : Scripted := { willing with passphrase := [1] }

/-- Of two wrong passphrases, the one is as good as the other. -/
theorem guarded_unrevealed :
    let c : Config := ⟨.ofSeconds 1, [⟨[0]⟩, ⟨[1]⟩]⟩
    let c' : Config := ⟨.ofSeconds 1, [⟨[2]⟩, ⟨[1]⟩]⟩
    let domain : Domain := ⟨Octets.zero 32⟩
    let v := (Vault.ofKeypair "a" ⟨Octets.zero 32⟩).withPassphrase ⟨[1]⟩
    let r := (signPayload "a" c .unit domain).run none guarded
    let u := (signPayload "a" c' .unit domain).run none guarded
    c.timeout = c'.timeout ∧ c.passphrases.length = c'.passphrases.length ∧
      r.requests ≠ u.requests ∧ r.Unrevealing Eq "a" u ∧
      Run.Unrevealing Eq "a" ((signPayload "a" c .unit domain).run (some 0) v)
        ((signPayload "a" c' .unit domain).run (some 0) v) := by
  intro c c' domain v r u
  have ht : c.timeout = c'.timeout := rfl
  have hn : c.passphrases.length = c'.passphrases.length := rfl
  have h := signPayload_confidential ht hn .unit domain
  have hr : Account.unlockings guarded r.exchanges =
      [(.lasting 0, .error .incorrectPassphrase), (.lasting 0, .ok ())] := rfl
  have hu : Account.unlockings guarded u.exchanges =
      [(.lasting 0, .error .incorrectPassphrase), (.lasting 0, .ok ())] := rfl
  have hc : Concur (Account.unlockings guarded r.exchanges)
      (Account.unlockings guarded u.exchanges) := by
    rw [hr, hu]
    exact Or.inl (List.prefix_refl _)
  refine ⟨ht, hn, ?_, ?_, ?_⟩
  · decide +kernel
  · exact h.unrevealing guarded none discreet rfl hc
  · exact h.vault v (some 0) (by decide +kernel)

end Scripted

end Notary
