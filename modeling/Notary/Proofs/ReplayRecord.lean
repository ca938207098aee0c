import Notary.Proofs.VaultHistory

/-! A vault that keeps a replay record signs each root at most once in a domain, whatever its
callers do and in whatever order. The record holds the pairs whose signatures were handed out, and
no others: a request that comes to nothing does not spend its pair. -/

namespace Notary

/-- The signature that a caller gets hold of, in the result or in its error. -/
def obtained? : Except Error Signature → Option Signature
  | .ok g => some g
  | .error e => e.signature?

/-- What a run came to, unless it was dropped. -/
def Run.answer? {σ α : Type} (r : Run σ α) : Option α :=
  match r.ending with
  | .finished a => some a
  | .dropped _ => none

/-- The root and the domain that a protected signature is asked for. -/
def Act.asks : Act → Option (Root × Domain)
  | .move (.signRoot _ root domain) => some (root, domain)
  | .move (.signPayload _ payload domain) => payload.root.toOption.map fun root => (root, domain)
  | .move (.direct (.signGeneric root domain) _) => some (root, domain)
  | _ => none

namespace Shared
section
variable {σ : Type} [Account σ]

/-- What a request for a signature comes to. What an account itself answers is put as it is put to
the callers of a request. -/
def answer? (w : Shared σ) : Act → Option (Except Error Signature)
  | .move (.signRoot c root domain) =>
    ((Process.signRoot (Account.name w.account) c root domain).run none w.account).answer?
  | .move (.signPayload c payload domain) =>
    ((Process.signPayload (Account.name w.account) c payload domain).run none w.account).answer?
  | .move (.direct (.signGeneric root domain) _) =>
    some ((Account.attempt (.signGeneric root domain) w.account).result.mapError .signing)
  | _ => none

/-- The account in the moment in which a request asks it to sign. -/
def askedAt? (w : Shared σ) : Act → Option σ
  | .move (.signRoot c root domain) =>
    Account.asked? w.account
      ((Process.signRoot (Account.name w.account) c root domain).run none w.account).exchanges
  | .move (.signPayload c payload domain) =>
    Account.asked? w.account
      ((Process.signPayload (Account.name w.account) c payload domain).run none w.account).exchanges
  | .move (.direct (.signGeneric _ _) _) => some w.account
  | _ => none

def grants? (w : Shared σ) (a : Act) : Option (Root × Domain) :=
  a.asks.filter fun _ => ((w.answer? a).bind obtained?).isSome

/-- The pairs that a history yields signatures for, a pair as often as it does. -/
def granted (w : Shared σ) : List Act → List (Root × Domain)
  | [] => []
  | a :: as => (w.grants? a).toList ++ (w.act a).granted as

end
end Shared

namespace Vault
open Account Process

theorem carryOut_of_signed {v : Vault} {pairs : List (Root × Domain)} (hs : v.signed = some pairs)
    (root : Root) (domain : Domain) :
    v.carryOut (.ofRoot root domain) =
      if v.unlocked then
        if (root, domain) ∈ pairs then (v, .error (.refused (.alreadySigned root domain)))
        else ({ v with signed := some ((root, domain) :: pairs) },
          .ok (v.keypair.sign (signingDigest root domain).bytes))
      else (v, .error .locked) := by
  rw [carryOut_ofRoot]
  unfold record
  rw [hs]
  cases v.unlocked with
  | false => rfl
  | true => by_cases hm : (root, domain) ∈ pairs <;> simp only [hm, if_true, if_false]

/-- How a request for a pair fares with a vault whose record is `pairs`: the vault in the moment in
which it is asked to sign, what the request comes to, and the record it leaves. -/
inductive Fares (pairs : List (Root × Domain)) (pair : Root × Domain) :
    Option Vault → Except Error Signature → Option (List (Root × Domain)) → Prop
  | unasked {e : Error} (he : e.signature? = none) : Fares pairs pair none (.error e) (some pairs)
  | locked {u : Vault} (hu : u.unlocked = false) :
      Fares pairs pair (some u) (.error (.signing .locked)) (some pairs)
  | repeated {u : Vault} (hu : u.unlocked = true) (h : pair ∈ pairs) :
      Fares pairs pair (some u) (.error (.signing (.refused (.alreadySigned pair.1 pair.2))))
        (some pairs)
  | signed {u : Vault} {g : Signature} (hu : u.unlocked = true) (h : pair ∉ pairs) :
      Fares pairs pair (some u) (.ok g) (some (pair :: pairs))

section
variable {v : Vault} {pairs : List (Root × Domain)}

theorem fares_carryOut (hs : v.signed = some pairs) (root : Root) (domain : Domain) :
    Fares pairs (root, domain) (some v) ((v.carryOut (.ofRoot root domain)).2.mapError .signing)
      (v.carryOut (.ofRoot root domain)).1.signed := by
  rw [carryOut_of_signed hs]
  cases hu : v.unlocked with
  | false =>
    change Fares pairs (root, domain) (some v) (.error (.signing .locked)) v.signed
    rw [hs]
    exact .locked hu
  | true =>
    rw [if_pos rfl]
    by_cases hm : (root, domain) ∈ pairs
    · rw [if_pos hm]
      change Fares pairs (root, domain) (some v)
        (.error (.signing (.refused (.alreadySigned root domain)))) v.signed
      rw [hs]
      exact .repeated hu hm
    · rw [if_neg hm]
      exact .signed hu hm

theorem fares_signRoot (hs : v.signed = some pairs) (account : String) (c : Config) (root : Root)
    (domain : Domain) :
    let r := (signRoot account c root domain).run none v
    ∃ result, r.answer? = some result ∧
      Fares pairs (root, domain) (asked? v r.exchanges) result r.account.signed := by
  intro r
  obtain ⟨result, he, hc⟩ := course_signRoot account c root domain v
  have ha : r.answer? = some result := by
    unfold Run.answer?
    rw [he]
  have ho : v.order root domain = .ofRoot root domain := if_pos (hs ▸ rfl)
  rw [ho] at hc
  refine ⟨result, ha, ?_⟩
  change Course v _ r.exchanges result r.account at hc
  generalize r.account = v' at hc ⊢
  cases hc with
  | refused h hg =>
    rw [h, hs]
    exact .unasked hg
  | carriedOut h =>
    rw [h]
    have hu : v.opened.signed = some pairs := hs
    exact fares_carryOut hu root domain

end

end Vault

namespace Shared
open Vault
variable {w : Shared Vault} {pairs : List (Root × Domain)} {a : Act}

theorem fares_of_asks {pair : Root × Domain} (hs : w.account.signed = some pairs)
    (ha : a.asks = some pair) :
    ∃ result, w.answer? a = some result ∧
      Fares pairs pair (w.askedAt? a) result (w.act a).account.signed := by
  unfold Act.asks at ha
  split at ha
  · cases ha
    exact fares_signRoot hs _ _ _ _
  · rename_i c payload domain
    cases hr : payload.root with
    | error e =>
      rw [hr] at ha
      cases ha
    | ok root =>
      rw [hr] at ha
      cases ha
      obtain ⟨result, hf⟩ := fares_signRoot hs (Account.name w.account) c root domain
      refine ⟨result, ?_⟩
      have hp : Process.signPayload (Account.name w.account) c payload domain =
          .report (.objectRoot root) (Process.signRoot (Account.name w.account) c root domain) := by
        unfold Process.signPayload
        rw [hr]
      simp only [answer?, askedAt?, act, step, after, hp]
      exact hf
  · cases ha
    exact ⟨_, rfl, fares_carryOut hs _ _⟩
  · cases ha

theorem signed_act_of_not_asks (ha : a.asks = none) :
    (w.act a).account.signed = w.account.signed := by
  cases a with
  | unlock p => exact signed_after_attempt rfl w.account
  | move m =>
    cases m with
    | begin c => exact signed_begin (Account.name w.account) w.account c
    | close i =>
      change (w.close i).account.signed = _
      rw [account_close]
      cases w.sessions[i]? with
      | none => rfl
      | some s => exact signed_close (Account.name w.account) w.account s
    | drop i =>
      change (w.drop i).account.signed = _
      rw [account_drop]
    | relock i =>
      change (w.relock i).account.signed = _
      rw [account_relock]
      cases w.handedOff[i]? with
      | none => rfl
      | some s => exact signed_handedOff (Account.name w.account) w.account s
    | signRoot c root domain => cases ha
    | signPayload c payload domain =>
      cases hr : payload.root with
      | ok root =>
        simp only [Act.asks, hr] at ha
        cases ha
      | error e =>
        simp only [act, step, after, Process.signPayload, hr]
        rfl
    | direct r hr =>
      cases r with
      | signGeneric root domain => cases ha
      | sign digest => rfl
      | isUnlocked => rfl
      | unlock p => exact absurd rfl (hr p)
      | lock => exact signed_after_attempt rfl w.account

/-- One act puts what it grants on the record, and only what is not there yet. -/
theorem signed_act (hs : w.account.signed = some pairs) (a : Act) :
    (w.act a).account.signed = some ((w.grants? a).toList ++ pairs) ∧
      ∀ pair ∈ w.grants? a, pair ∉ pairs := by
  cases ha : a.asks with
  | none =>
    have hg : w.grants? a = none := by rw [grants?, ha, Option.filter_none]
    rw [signed_act_of_not_asks ha, hg]
    exact ⟨hs, nofun⟩
  | some pair =>
    obtain ⟨result, hr, hf⟩ := fares_of_asks hs ha
    have hg : w.grants? a = (some pair).filter fun _ => (obtained? result).isSome := by
      rw [grants?, ha, hr, Option.bind_some]
    rw [hg]
    generalize (w.act a).account.signed = after at hf ⊢
    generalize w.askedAt? a = u at hf
    cases hf with
    | unasked he =>
      have ho : obtained? (.error _) = none := he
      rw [ho]
      exact ⟨rfl, nofun⟩
    | locked hu => exact ⟨rfl, nofun⟩
    | repeated hu h => exact ⟨rfl, nofun⟩
    | signed hu h =>
      refine ⟨rfl, fun p hp => ?_⟩
      cases hp
      exact h

/-- What a history grants is all that it puts on the record, each pair once. -/
theorem signed_acts (hs : w.account.signed = some pairs) (hn : pairs.Nodup) (as : List Act) :
    (w.acts as).account.signed = some ((w.granted as).reverse ++ pairs) ∧
      ((w.granted as).reverse ++ pairs).Nodup := by
  -- Along the history: the record that one act leaves is the one that the next finds.
  induction as generalizing w pairs with
  | nil => exact ⟨hs, hn⟩
  | cons a as ih =>
    obtain ⟨ha, hg⟩ := signed_act hs a
    have hn' : ((w.grants? a).toList ++ pairs).Nodup := by
      cases h : w.grants? a with
      | none => exact hn
      | some pair => exact List.nodup_cons.2 ⟨hg pair h, hn⟩
    have hr : (w.granted (a :: as)).reverse ++ pairs =
        ((w.act a).granted as).reverse ++ ((w.grants? a).toList ++ pairs) := by
      rw [granted, List.reverse_append, List.append_assoc]
      cases w.grants? a <;> rfl
    rw [hr]
    exact ih ha hn'

theorem answer_of_askedAt {pair : Root × Domain} {u : Vault} (hs : w.account.signed = some pairs)
    (ha : a.asks = some pair) (hu : w.askedAt? a = some u) (hl : u.unlocked = true) :
    pair ∈ pairs ∧
        w.answer? a = some (.error (.signing (.refused (.alreadySigned pair.1 pair.2)))) ∨
      pair ∉ pairs ∧ ∃ g, w.answer? a = some (.ok g) := by
  obtain ⟨result, hr, hf⟩ := fares_of_asks hs ha
  rw [hu] at hf
  generalize (w.act a).account.signed = after at hf
  cases hf with
  | locked h => exact absurd (h.symm.trans hl) nofun
  | repeated _ h => exact Or.inl ⟨h, hr⟩
  | signed _ h => exact Or.inr ⟨h, _, hr⟩

theorem signed_act_of_unsigned (hs : w.account.signed = some pairs)
    (h : ∀ g, w.answer? a ≠ some (.ok g)) : (w.act a).account.signed = w.account.signed := by
  cases ha : a.asks with
  | none => exact signed_act_of_not_asks ha
  | some pair =>
    obtain ⟨result, hr, hf⟩ := fares_of_asks hs ha
    rw [hs]
    generalize (w.act a).account.signed = after at hf ⊢
    generalize w.askedAt? a = u at hf
    cases hf with
    | signed _ _ => exact absurd hr (h _)
    | _ => rfl

/-- How the next act of a history fares, where `past` are the pairs that were signed in it. -/
structure Replays (w : Shared Vault) (past : List (Root × Domain)) (a : Act) : Prop where
  /-- Who asks an unlocked vault is turned away exactly if this very pair was signed before. -/
  refused_iff : ∀ pair u, a.asks = some pair → w.askedAt? a = some u → u.unlocked = true →
    (w.answer? a = some (.error (.signing (.refused (.alreadySigned pair.1 pair.2)))) ↔
      pair ∈ past)
  signed_of_new : ∀ pair u, a.asks = some pair → w.askedAt? a = some u → u.unlocked = true →
    pair ∉ past → ∃ g, w.answer? a = some (.ok g)
  /-- What yields no signature spends no pair. -/
  kept : (∀ g, w.answer? a ≠ some (.ok g)) → (w.act a).account.signed = w.account.signed

theorem replays_of_signed (hs : w.account.signed = some pairs) (a : Act) : w.Replays pairs a where
  refused_iff pair u ha hu hl := by
    rcases answer_of_askedAt hs ha hu hl with ⟨hm, hr⟩ | ⟨hm, g, hr⟩
    · exact ⟨fun _ => hm, fun _ => hr⟩
    · rw [hr]
      exact ⟨nofun, fun h => absurd h hm⟩
  signed_of_new pair u ha hu hl hm := by
    rcases answer_of_askedAt hs ha hu hl with ⟨h, -⟩ | ⟨-, h⟩
    · exact absurd h hm
    · exact h
  kept h := signed_act_of_unsigned hs h

theorem Replays.of_mem_iff {past : List (Root × Domain)} (h : w.Replays pairs a)
    (hp : ∀ pair, pair ∈ pairs ↔ pair ∈ past) : w.Replays past a where
  refused_iff pair u ha hu hl := (h.refused_iff pair u ha hu hl).trans (hp pair)
  signed_of_new pair u ha hu hl hm := h.signed_of_new pair u ha hu hl fun h => hm ((hp pair).1 h)
  kept := h.kept

/-- Whatever is done with a vault whose record is empty at first, no pair is signed twice, the
record holds the pairs that were signed, and they alone decide how the next request for a signature
fares with the unlocked vault. -/
theorem signs_atMostOnce {v : Vault} (hv : v.signed = some []) (as : List Act) :
    let w := acts ⟨v, [], []⟩ as
    let past := granted ⟨v, [], []⟩ as
    (∀ pair, past.count pair ≤ 1) ∧ w.account.signed = some past.reverse ∧
      ∀ a, w.Replays past a := by
  intro w past
  obtain ⟨hs, hn⟩ := signed_acts (w := ⟨v, [], []⟩) hv List.nodup_nil as
  rw [List.append_nil] at hs hn
  refine ⟨fun pair => ?_, hs, fun a => ?_⟩
  · rw [← List.count_reverse]
    exact List.nodup_iff_count.1 hn pair
  · exact (replays_of_signed hs a).of_mem_iff fun pair => List.mem_reverse

/-- Locked under the passphrase `1`, with an empty record. -/
def chronicled : Vault :=
  ((Vault.ofKeypair "vault" ⟨Octets.zero 32⟩).withPassphrase ⟨[1]⟩).withRecord

def repeating {p : Part} (n : UInt8) : Block p := ⟨Vector.replicate 32 n⟩

def requestFor (domain : Domain) (passphrase : List UInt8) : Act :=
  .move (.signRoot ⟨.ofSeconds 1, [⟨passphrase⟩]⟩ (repeating 0) domain)

/-- Two domains for one root, and a request with a wrong passphrase between them. -/
def courted : List Act :=
  [requestFor (repeating 0) [1], requestFor (repeating 1) [0], requestFor (repeating 2) [1]]

theorem chronicled_refuses :
    let w := acts ⟨chronicled, [], []⟩ courted
    chronicled.signed = some [] ∧
      granted ⟨chronicled, [], []⟩ courted =
        [(repeating 0, repeating 0), (repeating 0, repeating 2)] ∧
      w.answer? (requestFor (repeating 2) [1]) =
        some (.error (.signing (.refused (.alreadySigned (repeating 0) (repeating 2))))) ∧
      ∃ g, w.answer? (requestFor (repeating 1) [1]) = some (.ok g) := by
  intro w
  have hs : chronicled.signed = some [] := rfl
  have hg : granted ⟨chronicled, [], []⟩ courted =
      [(repeating 0, repeating 0), (repeating 0, repeating 2)] := by decide +kernel
  have hu : ∀ domain ∈ [repeating 1, repeating 2],
      w.askedAt? (requestFor domain [1]) = some w.account.opened := by decide +kernel
  have hl : w.account.opened.unlocked = true := by decide +kernel
  obtain ⟨-, -, hr⟩ := signs_atMostOnce hs courted
  rw [hg] at hr
  refine ⟨hs, hg, ?_, ?_⟩
  · have hd := (hr (requestFor (repeating 2) [1])).refused_iff (repeating 0, repeating 2)
    exact (hd w.account.opened rfl (hu _ (by decide)) hl).2 (by decide)
  · have hd := (hr (requestFor (repeating 1) [1])).signed_of_new (repeating 0, repeating 1)
    exact hd w.account.opened rfl (hu _ (by decide)) hl (by decide)

end Shared

end Notary
