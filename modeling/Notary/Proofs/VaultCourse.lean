import Notary.Proofs.DigestPath
import Notary.Proofs.VaultLock

/-! What a request comes to with a vault, as an equation: the vault is opened, does what it is asked
to, and is given back with its lock as it was found; or it is not opened, and is given back as it
was. -/

namespace Notary

/-- The state in which an account is first asked for a signature. -/
def Account.asked? {σ : Type} [Account σ] : σ → List Exchange → Option σ
  | _, [] => none
  | s, x :: xs => if x.signs then some s else asked? (x.next s) xs

namespace Account
variable {σ : Type} [Account σ] {s s' : σ} {xs ys : List Exchange}

theorem asked?_append_of_apart (h : ∀ x ∈ xs, x.Apart) (hp : Passes s xs s') :
    asked? s (xs ++ ys) = asked? s' ys := by
  induction xs generalizing s with
  | nil => rw [hp, List.nil_append]
  | cons x xs ih =>
    obtain ⟨hx, hxs⟩ := List.forall_mem_cons.1 h
    rw [List.cons_append, asked?, hx.not_signs]
    exact ih hxs hp.2

theorem asked?_of_apart (h : ∀ x ∈ xs, x.Apart) (hp : Passes s xs s') : asked? s xs = none := by
  have ha : asked? s (xs ++ []) = asked? s' [] := asked?_append_of_apart h hp
  rwa [List.append_nil] at ha

end Account

namespace Vault
open Account Process Session

/-- The vault while a session with it is open. -/
def opened (v : Vault) : Vault := { v with unlocked := v.unlocked || v.passphraseHash.isSome }

theorem opened_of_unlocked {v : Vault} (h : v.Lockable → v.unlocked = true) : v.opened = v := by
  have hu : (v.unlocked || v.passphraseHash.isSome) = v.unlocked := by
    cases hv : v.passphraseHash.isSome with
    | true => rw [h hv, Bool.true_or]
    | false => rw [Bool.or_false]
  rw [opened, hu]

theorem opened_of_lockable {v : Vault} (h : v.Lockable) :
    v.opened = { v with unlocked := true } := by
  have hs : v.passphraseHash.isSome = true := h
  rw [opened, hs, Bool.or_true]

/-- What the vault does with an order, and what it answers. -/
def carryOut (v : Vault) : Order → Vault × Except AccountError Signature
  | .ofRoot root domain =>
    ((Account.attempt (.signGeneric root domain) v).after,
      (Account.attempt (.signGeneric root domain) v).result)
  | .ofDigest digest =>
    ((Account.attempt (.sign digest) v).after, (Account.attempt (.sign digest) v).result)

theorem carryOut_ofRoot (v : Vault) (root : Root) (domain : Domain) :
    v.carryOut (.ofRoot root domain) =
      match v.record root domain with
      | .error e => (v, .error e)
      | .ok v' => (v', .ok (v.keypair.sign (signingDigest root domain).bytes)) := by
  change ((attempt (.signGeneric root domain) v).after,
    (attempt (.signGeneric root domain) v).result) = _
  unfold attempt
  dsimp only
  cases v.record root domain <;> rfl

theorem carryOut_fst (v : Vault) (order : Order) :
    ∃ signed, (v.carryOut order).1 = { v with signed } := by
  cases order with
  | ofDigest digest => exact ⟨v.signed, rfl⟩
  | ofRoot root domain =>
    rw [carryOut_ofRoot]
    split
    · exact ⟨v.signed, rfl⟩
    · rename_i v' hr
      exact record_ok hr

/-- What a vault is asked to sign: the root itself, if it keeps a record. -/
def order (v : Vault) (root : Root) (domain : Domain) : Order :=
  if v.signed.isSome then .ofRoot root domain else .ofDigest (signingDigest root domain)

/-- To begin a session is to leave the vault as it is and fail, or to open it. -/
inductive Opening (v : Vault) : Except Error UnlockState → Vault → Prop
  | refused {e : Error} (he : e.signature? = none) : Opening v (.error e) v
  | found {state : UnlockState} (hs : state ≠ .justUnlocked) (h : v.opened = v) :
      Opening v (.ok state) v.opened
  | unlocked (hv : v.Lockable) (hl : v.unlocked = false) : Opening v (.ok .justUnlocked) v.opened

variable {v v' : Vault} {xs : List Exchange}

theorem unlock_of_hash {hash : Octets 32} (h : v.passphraseHash = some hash) (p : List UInt8) :
    v.unlock p = if hash = hashPassphrase p then ({ v with unlocked := true }, .ok ())
      else (v, .error .incorrectPassphrase) := by
  unfold unlock
  rw [h]

theorem unlock_of_ok {p : List UInt8} (hv : v.Lockable) (h : (v.unlock p).2 = .ok ()) :
    (v.unlock p).1 = { v with unlocked := true } := by
  obtain ⟨hash, hh⟩ := Option.isSome_iff_exists.1 hv
  rw [unlock_of_hash hh] at h ⊢
  split
  · rfl
  · rename_i hn
    rw [if_neg hn] at h
    cases h

theorem eq_of_query {t : Duration} {w : Wait} {o : Outcome Bool} {ys : List Exchange}
    (hp : Passes v (.answer .locker true :: .ended .isUnlocked t w o :: ys) v') :
    v.Lockable ∧ (Exchange.ended .isUnlocked t w o).Holds v ∧ Passes v ys v' := by
  have hn : (Exchange.ended .isUnlocked t w o).next v = v :=
    next_call v ⟨.isUnlocked, t, w, some o⟩
  refine ⟨hp.1, hp.2.1, ?_⟩
  have h := hp.2.2
  change Passes ((Exchange.ended .isUnlocked t w o).next v) ys v' at h
  rwa [hn] at h

theorem opening_of_unlocking {account : String} {c : Config} {result : Except Error UnlockState}
    (h : Unlocking account c xs (.finished result)) (hp : Passes v xs v') :
    Opening v result v' := by
  cases h with
  | notLockable =>
    have hv : ¬ v.Lockable := fun hv => nomatch hv.symm.trans hp.1
    have ho : v.opened = v := opened_of_unlocked fun h => absurd h hv
    have he : v.opened = v' := ho.trans hp.2
    exact he ▸ .found nofun ho
  | queryRefused w e =>
    obtain ⟨-, -, rfl⟩ := eq_of_query hp
    exact .refused rfl
  | queryExpired w => exact absurd (eq_of_query hp).2.1 not_expired
  | alreadyUnlocked w =>
    obtain ⟨-, hq, hv⟩ := eq_of_query hp
    have hu : v.unlocked = true := Except.ok.inj (result_of_returned hq)
    have ho : v.opened = v := opened_of_unlocked fun _ => hu
    have he : v.opened = v' := ho.trans hv
    exact he ▸ .found nofun ho
  | locked w h =>
    obtain ⟨hv, hq, hx⟩ := eq_of_query hp
    have hl : v.unlocked = false := Except.ok.inj (result_of_returned hq)
    cases h with
    | exhausted h =>
      rw [eq_of_refused h hx]
      exact .refused rfl
    | @unlocked qs rest p xs w' hps h =>
      -- The passphrases before the last one have changed nothing.
      obtain ⟨v₁, h₁, hu, rfl⟩ := passes_append.1 hx
      cases eq_of_refused h h₁
      have hn : (Exchange.ended (.unlock p.bytes) c.timeout w' (.returned ())).next v
          = (v.unlock p.bytes).1 := next_call v ⟨.unlock p.bytes, c.timeout, w', some (.returned ())⟩
      have ho : (v.unlock p.bytes).1 = v.opened :=
        (unlock_of_ok hv (result_of_returned hu)).trans (opened_of_lockable hv).symm
      rw [hn, ho]
      exact .unlocked hv hl
    | @expired qs rest p xs ys lock _ w' hps h hlock he =>
      obtain ⟨v₁, -, h₂⟩ := passes_append.1 hx
      exact absurd h₂.1 not_expired

theorem next_order {order : Order} {t : Duration} {w : Wait} {o : Outcome Signature}
    (h : (order.exchange t w (some o)).Holds v) :
    (order.exchange t w (some o)).next v = (v.carryOut order).1 ∧
      o = .ofResult (v.carryOut order).2 := by
  cases order with
  | ofRoot root domain =>
    have ho := h.2
    rw [outcome_attempt] at ho
    exact ⟨next_call v ⟨.signGeneric root domain, t, w, some o⟩, ho.symm⟩
  | ofDigest digest =>
    have ho := h.2
    rw [outcome_attempt] at ho
    exact ⟨next_call v ⟨.sign digest, t, w, some o⟩, ho.symm⟩

theorem carryOut_of_signing {account : String} {s : Session} {order : Order}
    {outcome : Except Error Signature} (hv : v.offers order.capability = true)
    (h : Signing account s order xs (.finished outcome)) (hp : Passes v xs v') :
    (∀ ys, asked? v (xs ++ ys) = some v) ∧ v' = (v.carryOut order).1 ∧
      outcome = (v.carryOut order).2.mapError .signing := by
  cases h with
  | withdrawn =>
    -- A vault does not withdraw what it was found to offer.
    exact absurd (hv.symm.trans hp.1) nofun
  | ended w o =>
    have hc : (order.exchange s.timeout w (some o)).Holds v := hp.2.1
    obtain ⟨hn, ho⟩ := next_order hc
    refine ⟨fun ys => ?_, hp.2.2.symm.trans hn, ?_⟩
    · cases order <;> rfl
    · rw [ho]
      cases (v.carryOut order).2 <;> rfl

theorem lock_of_lockable (hv : v.Lockable) : v.lock = { v with unlocked := false } := if_pos hv

theorem lock_of_relocking {t : Duration} {session : Option Session}
    {lock : Except CallError Unit} (hv : v.Lockable)
    (h : Relocking t session xs (.finished lock)) (hp : Passes v xs v') :
    v' = v.lock ∧ lock = .ok () := by
  cases h with
  | withdrawn => exact absurd (hv.offers hp.1) nofun
  | ended w o =>
    obtain ⟨-, ho, rfl⟩ := hp
    refine ⟨next_call v ⟨.lock, t, w, some o⟩, ?_⟩
    have hr := ho.2
    rw [outcome_attempt] at hr
    rw [← hr]
    rfl

/-- What comes of a request: an error, with nothing done and nothing signed; or what the opened
vault answers to its order. -/
inductive Course (v : Vault) (order : Order) :
    List Exchange → Except Error Signature → Vault → Prop
  | refused {xs : List Exchange} {e : Error} (h : asked? v xs = none) (he : e.signature? = none) :
      Course v order xs (.error e) v
  | carriedOut {xs : List Exchange} (h : asked? v xs = some v.opened) :
      Course v order xs ((v.opened.carryOut order).2.mapError .signing)
        { (v.opened.carryOut order).1 with unlocked := v.unlocked }

theorem Course.of_asked? {order : Order} {ys : List Exchange} {result : Except Error Signature}
    (h : Course v order xs result v') (ha : asked? v ys = asked? v xs) :
    Course v order ys result v' := by
  cases h with
  | refused h he => exact .refused (ha.trans h) he
  | carriedOut h => exact .carriedOut (ha.trans h)

variable {account : String} {c : Config}

theorem offers_opened (v : Vault) (c : Capability) : v.opened.offers c = v.offers c := by
  cases c <;> rfl

theorem course_of_inSession {order : Order} {result : Except Error Signature}
    (hv : v.offers order.capability = true) (h : InSession account c order xs (.finished result))
    (hp : Passes v xs v') : Course v order xs result v' := by
  have ho : v.opened.offers order.capability = true := (offers_opened v order.capability).trans hv
  cases h with
  | refused h =>
    have hx := opening_of_unlocking h hp
    cases hx with
    | refused he => exact .refused (asked?_of_apart h.apart hp) he
  | @unowed as bs state _ h hs hg =>
    obtain ⟨v₁, h₁, h₂⟩ := passes_append.1 hp
    have hx := opening_of_unlocking h h₁
    cases hx with
    | unlocked => exact absurd rfl hs
    | found _ he =>
      obtain ⟨ha, hw, rfl⟩ := carryOut_of_signing ho hg h₂
      have hb : asked? v (as ++ bs) = some v.opened := by
        rw [asked?_append_of_apart h.apart h₁, ← List.append_nil bs]
        exact ha []
      -- The vault was open already, so that it is left as the order leaves it.
      have hl : { v' with unlocked := v.unlocked } = v' := by
        obtain ⟨signed, hf⟩ := carryOut_fst v.opened order
        rw [hw, hf, he]
      rw [← hl, hw]
      exact .carriedOut hb
  | @owed as bs zs outcome lock _ h hg hlock he =>
    obtain ⟨v₂, h₁₂, h₃⟩ := passes_append.1 hp
    obtain ⟨v₁, h₁, h₂⟩ := passes_append.1 h₁₂
    obtain ⟨lock, rfl, rfl⟩ := Ending.finished_eq_map_iff.1 he
    have hx := opening_of_unlocking h h₁
    cases hx with
    | found hs => exact absurd rfl hs
    | unlocked hv hl =>
      obtain ⟨ha, hw, rfl⟩ := carryOut_of_signing ho hg h₂
      have hb : asked? v (as ++ bs ++ zs) = some v.opened := by
        rw [List.append_assoc, asked?_append_of_apart h.apart h₁]
        exact ha zs
      obtain ⟨signed, hf⟩ := carryOut_fst v.opened order
      have hv₂ : v₂.Lockable := by
        rw [hw, hf]
        exact hv
      obtain ⟨rfl, rfl⟩ := lock_of_relocking hv₂ hlock h₃
      have hl₂ : v₂.lock = { (v.opened.carryOut order).1 with unlocked := v.unlocked } := by
        rw [lock_of_lockable hv₂, hl, hw]
      rw [hl₂]
      exact .carriedOut hb

theorem course_of_ofRoot {root : Root} {domain : Domain} {result : Except Error Signature}
    (h : OfRoot account c root domain xs (.finished result)) (hp : Passes v xs v') :
    Course v (v.order root domain) xs result v' := by
  cases h with
  | zeroTimeout h => exact hp ▸ .refused rfl rfl
  | incapable h l => exact absurd hp.2.2.1 nofun
  | @protecting ys _ h l g hi =>
    have hs : v.signed.isSome = true := hp.2.1
    have ho : v.order root domain = .ofRoot root domain := if_pos hs
    rw [ho]
    have hc : v.offers (Order.ofRoot root domain).capability = true := hs
    have hx := course_of_inSession hc hi hp.2.2.2
    exact hx.of_asked? rfl
  | @plain ys _ h l hi =>
    have hs : v.signed.isSome = false := hp.2.1
    have ho : v.order root domain = .ofDigest (signingDigest root domain) :=
      if_neg (Bool.eq_false_iff.1 hs)
    rw [ho]
    have hc : v.offers (Order.ofDigest (signingDigest root domain)).capability = true := rfl
    have hx := course_of_inSession hc hi hp.2.2.2
    exact hx.of_asked? rfl

theorem course_signRoot (account : String) (c : Config) (root : Root) (domain : Domain)
    (v : Vault) :
    let r := (signRoot account c root domain).run none v
    ∃ result, r.ending = .finished result ∧
      Course v (v.order root domain) r.exchanges result r.account := by
  have hp := run_passes (signRoot account c root domain) none v
  obtain ⟨result, he, hx⟩ := run_none_leads (signRoot account c root domain) v
  exact ⟨result, he, course_of_ofRoot (leads_signRoot hx) hp⟩

end Vault

end Notary
