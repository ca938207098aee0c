import Notary.Proofs.LockTrace

/-! The interface that a request signs by. It is chosen once, by what the account is found to offer
when the request begins, and a signature is asked for by no other. Where the account has withdrawn
it by then, nothing is signed, and an account that was unlocked for it is locked again. -/

namespace Notary

namespace Request

/-- The calls that ask for a signature. -/
def signs : Request → Bool
  | sign _ | signGeneric _ _ => true
  | _ => false

end Request

namespace Capabilities

end Capabilities

namespace Exchange

def signs : Exchange → Bool
  | answer _ _ => false
  | call k => k.request.signs

/-- It has to do with the lock at most: neither a signature is asked for nor an interface. -/
def Apart : Exchange → Prop
  | answer c _ => c = .locker
  | call k => k.request.signs = false

theorem Apart.not_signs {x : Exchange} (h : x.Apart) : x.signs = false := by
  cases x with
  | answer c offered => rfl
  | call k => exact h

theorem not_mem_of_apart {xs : List Exchange} {c : Capability} (hc : c ≠ .locker) (offered : Bool)
    (h : ∀ x ∈ xs, x.Apart) : .answer c offered ∉ xs := fun hm => hc (h _ hm)

theorem countP_signs_of_apart {xs : List Exchange} (h : ∀ x ∈ xs, x.Apart) :
    xs.countP signs = 0 :=
  List.countP_eq_zero.2 fun x hm => Bool.eq_false_iff.1 (h x hm).not_signs

end Exchange

namespace Session

theorem Refused.apart {t : Duration} {ps : List Passphrase} {xs : List Exchange}
    (h : Refused t ps xs) : ∀ x ∈ xs, x.Apart := by
  induction h with
  | nil => exact List.forall_mem_nil _
  | cons p w e h ih => exact List.forall_mem_cons.2 ⟨rfl, ih⟩

theorem Relocking.apart {t : Duration} {session : Option Session} {xs : List Exchange}
    {ending : Ending (Except CallError Unit)} (h : Relocking t session xs ending) :
    ∀ x ∈ xs, x.Apart := by
  cases h with
  | withdrawn => exact List.forall_mem_singleton.2 rfl
  | ended w o => exact List.forall_mem_cons.2 ⟨rfl, List.forall_mem_singleton.2 rfl⟩
  | pending w => exact List.forall_mem_cons.2 ⟨rfl, List.forall_mem_singleton.2 rfl⟩

theorem Trying.apart {account : String} {t : Duration} {ps : List Passphrase} {attempt : Nat}
    {xs : List Exchange} {ending : Ending (Except Error UnlockState)}
    (h : Trying account t ps attempt xs ending) : ∀ x ∈ xs, x.Apart := by
  cases h with
  | exhausted h => exact h.apart
  | unlocked w hps h => exact List.forall_mem_append.2 ⟨h.apart, List.forall_mem_singleton.2 rfl⟩
  | expired w hps h hl he =>
    exact List.forall_mem_append.2 ⟨h.apart, List.forall_mem_cons.2 ⟨rfl, hl.apart⟩⟩
  | pending w hps h => exact List.forall_mem_append.2 ⟨h.apart, List.forall_mem_singleton.2 rfl⟩

theorem Unlocking.apart {account : String} {c : Config} {xs : List Exchange}
    {ending : Ending (Except Error UnlockState)} (h : Unlocking account c xs ending) :
    ∀ x ∈ xs, x.Apart := by
  cases h with
  | notLockable => exact List.forall_mem_singleton.2 rfl
  | locked w h => exact List.forall_mem_cons.2 ⟨rfl, List.forall_mem_cons.2 ⟨rfl, h.apart⟩⟩
  | _ => exact List.forall_mem_cons.2 ⟨rfl, List.forall_mem_singleton.2 rfl⟩

/-- The unlock that a session owes its lock for is the last that happens before it begins. -/
theorem Unlocking.getLast {account : String} {c : Config} {xs : List Exchange}
    (h : Unlocking account c xs (.finished (.ok .justUnlocked))) :
    ∃ ys p w, xs = ys ++ [.ended (.unlock p) c.timeout w (.returned ())] := by
  cases h with
  | locked w h =>
    cases h with
    | @unlocked qs rest p ys w' hps h =>
      exact ⟨.answer .locker true :: .ended .isUnlocked c.timeout w (.returned false) :: ys,
        p.bytes, w', rfl⟩
    | expired w' hps h hl he =>
      obtain ⟨lock, -, he⟩ := Ending.finished_eq_map_iff.1 he
      cases he

end Session

namespace Process
open Session (Unlocking Relocking)

def Order.request : Order → Request
  | ofRoot root domain => .signGeneric root domain
  | ofDigest digest => .sign digest

theorem Order.capability_ne_locker (order : Order) : order.capability ≠ .locker := by
  cases order <;> exact nofun

theorem Order.request_exchange {order : Order} {t : Duration} {w : Wait}
    {o : Option (Outcome Signature)} {k : Call} (h : .call k = order.exchange t w o) :
    k.request = order.request := by
  cases order <;> cases h <;> rfl

section
variable {account : String} {c : Config} {order : Order} {xs : List Exchange}

theorem Signing.signs {s : Session} {ending : Ending (Except Error Signature)}
    (h : Signing account s order xs ending) :
    xs.countP Exchange.signs ≤ 1 ∧ ∀ k, .call k ∈ xs → k.request = order.request := by
  have called : ∀ w o k, .call k ∈ [.answer order.capability true, order.exchange s.timeout w o] →
      k.request = order.request := by
    intro w o k hm
    rcases List.mem_cons.1 hm with hk | hm
    · cases hk
    · exact Order.request_exchange (List.mem_singleton.1 hm)
  have counted : ∀ w o,
      [Exchange.answer order.capability true, order.exchange s.timeout w o].countP Exchange.signs
        ≤ 1 := by
    intro w o
    have ha : ¬ (Exchange.answer order.capability true).signs = true := Bool.false_ne_true
    rw [List.countP_cons_of_neg ha]
    exact List.countP_le_length
  cases h with
  | withdrawn =>
    refine ⟨Nat.zero_le 1, fun k hm => ?_⟩
    cases List.mem_singleton.1 hm
  | ended w o => exact ⟨counted w (some o), called w (some o)⟩
  | pending w => exact ⟨counted w none, called w none⟩

/-- A session is unlocked, is signed in, and is locked again, as far as it gets. -/
theorem InSession.parts {ending : Ending (Except Error Signature)}
    (h : InSession account c order xs ending) :
    ∃ as bs cs e, xs = as ++ bs ++ cs ∧ Unlocking account c as e ∧
      (bs = [] ∨ ∃ s e, Signing account s order bs e) ∧
      (cs = [] ∨ ∃ session e, Relocking c.timeout session cs e) := by
  cases h with
  | refused h => exact ⟨xs, [], [], _, by simp, h, Or.inl rfl, Or.inl rfl⟩
  | unlocking h => exact ⟨xs, [], [], _, by simp, h, Or.inl rfl, Or.inl rfl⟩
  | unowed h hs hg => exact ⟨_, _, [], _, by simp, h, Or.inr ⟨_, _, hg⟩, Or.inl rfl⟩
  | signing h hg => exact ⟨_, _, [], _, by simp, h, Or.inr ⟨_, _, hg⟩, Or.inl rfl⟩
  | owed h hg hl he => exact ⟨_, _, _, _, rfl, h, Or.inr ⟨_, _, hg⟩, Or.inr ⟨_, _, hl⟩⟩

theorem InSession.around {ending : Ending (Except Error Signature)}
    (h : InSession account c order xs ending) :
    ∃ as bs cs, xs = as ++ bs ++ cs ∧ (∀ x ∈ as, x.Apart) ∧ (∀ x ∈ cs, x.Apart) ∧
      (bs = [] ∨ ∃ s e, Signing account s order bs e) := by
  obtain ⟨as, bs, cs, e, rfl, hu, hb, hc⟩ := h.parts
  refine ⟨as, bs, cs, rfl, hu.apart, ?_, hb⟩
  rcases hc with rfl | ⟨session, e, hl⟩
  · exact List.forall_mem_nil Exchange.Apart
  · exact hl.apart

theorem InSession.signs {ending : Ending (Except Error Signature)}
    (h : InSession account c order xs ending) :
    xs.countP Exchange.signs ≤ 1 ∧
      ∀ k, .call k ∈ xs → k.request.signs = true → k.request = order.request := by
  obtain ⟨as, bs, cs, rfl, ha, hc, hb⟩ := h.around
  have hbs : bs.countP Exchange.signs ≤ 1 ∧ ∀ k, .call k ∈ bs → k.request = order.request := by
    rcases hb with rfl | ⟨s, e, hg⟩
    · exact ⟨Nat.zero_le 1, nofun⟩
    · exact hg.signs
  refine ⟨?_, fun k hm hk => ?_⟩
  · rw [List.countP_append, List.countP_append, Exchange.countP_signs_of_apart ha,
      Exchange.countP_signs_of_apart hc, Nat.zero_add]
    exact hbs.1
  · have notApart : ∀ ys : List Exchange, (∀ x ∈ ys, x.Apart) → .call k ∉ ys :=
      fun ys hy hm => absurd (hk.symm.trans (hy _ hm)) nofun
    rcases List.mem_append.1 hm with hm | hm
    · rcases List.mem_append.1 hm with hm | hm
      · exact absurd hm (notApart as ha)
      · exact hbs.2 k hm
    · exact absurd hm (notApart cs hc)

/-- How a request ends that finds its interface withdrawn. No signature is asked for, and an unlock
that was done for it is followed by the relock that its session owes: a lock, unless the account does
not offer one any more. -/
inductive Withdrawn (account : String) (t : Duration) (c : Capability) :
    List Exchange → Except Error Signature → Prop
  | unowed {xs : List Exchange} (hs : ∀ x ∈ xs, x.signs = false)
      (hu : ∀ x ∈ xs, x.unlocks = false) :
      Withdrawn account t c (xs ++ [.answer c false]) (.error (.unsupportedCapability account c))
  | relocked {xs zs : List Exchange} {p : List UInt8} (w : Wait) (hs : ∀ x ∈ xs, x.signs = false)
      (hl : Relocking t (some ⟨.justUnlocked, t⟩) zs (.finished (.ok ()))) :
      Withdrawn account t c
        (xs ++ .ended (.unlock p) t w (.returned ()) :: .answer c false :: zs)
        (.error (.unsupportedCapability account c))
  | relockFailed {xs zs : List Exchange} {p : List UInt8} {source : CallError} (w : Wait)
      (hs : ∀ x ∈ xs, x.signs = false)
      (hl : Relocking t (some ⟨.justUnlocked, t⟩) zs (.finished (.error source))) :
      Withdrawn account t c
        (xs ++ .ended (.unlock p) t w (.returned ()) :: .answer c false :: zs)
        (.error (.relockFailed account none source))

theorem Signing.eq_withdrawn {s : Session} {ending : Ending (Except Error Signature)}
    (h : Signing account s order xs ending) (hx : .answer order.capability false ∈ xs) :
    xs = [.answer order.capability false] ∧
      ending = .finished (.error (.unsupportedCapability account order.capability)) := by
  -- Where a signature was asked for, the interface had answered.
  have absent : ∀ w o,
      .answer order.capability false ∉ [.answer order.capability true,
        order.exchange s.timeout w o] := by
    intro w o
    cases order <;> simp [Order.exchange]
  cases h with
  | withdrawn => exact ⟨rfl, rfl⟩
  | ended w o => exact absurd hx (absent w (some o))
  | pending w => exact absurd hx (absent w none)

theorem InSession.withdrawn {result : Except Error Signature}
    (h : InSession account c order xs (.finished result))
    (hx : .answer order.capability false ∈ xs) :
    Withdrawn account c.timeout order.capability xs result := by
  have hc : ∀ ys : List Exchange, (∀ x ∈ ys, x.Apart) → .answer order.capability false ∉ ys :=
    fun ys => Exchange.not_mem_of_apart order.capability_ne_locker false
  cases h with
  | refused h => exact absurd hx (hc xs h.apart)
  | @unowed as bs state _ h hs hg =>
    obtain ⟨rfl, he⟩ := hg.eq_withdrawn ((List.mem_append.1 hx).resolve_left (hc as h.apart))
    cases he
    refine .unowed (fun x hm => (h.apart x hm).not_signs) fun x hm => ?_
    refine Bool.eq_false_iff.2 fun hu => ?_
    cases h.unlocks_iff.1 ⟨x, hm, hu⟩
    exact hs rfl
  | @owed as bs zs outcome lock _ h hg hl he =>
    obtain ⟨lock, rfl, rfl⟩ := Ending.finished_eq_map_iff.1 he
    have hb := (List.mem_append.1 hx).resolve_right (hc zs hl.apart)
    obtain ⟨rfl, ho⟩ := hg.eq_withdrawn ((List.mem_append.1 hb).resolve_left (hc as h.apart))
    cases ho
    obtain ⟨ys, p, w, rfl⟩ := h.getLast
    have hs : ∀ x ∈ ys, x.signs = false :=
      fun x hm => (h.apart x (List.mem_append_left _ hm)).not_signs
    rw [List.append_assoc, List.append_assoc]
    cases lock with
    | ok u => exact .relocked w hs hl
    | error source => exact .relockFailed w hs hl

end

end Process

end Notary
