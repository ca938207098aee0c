import Notary.Proofs.VaultVerdict

/-! No signature of a locked vault. A history is taken apart into the calls that reach the vault,
those of sessions and of requests among them, each with how it ended. Along them a vault with a
passphrase is unlocked exactly if the passphrase was given and no lock has come since; whoever asks
for a signature at any other time is turned away. A vault without a passphrase is never locked. -/

namespace Notary

/-- A call that an account has answered. -/
structure Deed where
  request : Request
  outcome : Outcome request.Reply

def Deed.signature? : Deed → Option Signature
  | ⟨.sign _, .returned g⟩ => some g
  | ⟨.signGeneric _ _, .returned g⟩ => some g
  | _ => none

theorem Deed.signs_of_signature? {d : Deed} {g : Signature} (h : d.signature? = some g) :
    d.request.signs = true ∧ ∀ e, d.outcome ≠ .refused e := by
  unfold signature? at h
  split at h
  · exact ⟨rfl, nofun⟩
  · exact ⟨rfl, nofun⟩
  · cases h

def Call.deed? (k : Call) : Option Deed := k.outcome.map fun o => ⟨k.request, o⟩

def Run.deeds {σ α : Type} (r : Run σ α) : List Deed := r.calls.filterMap Call.deed?

/-- What comes of a call that is given all the time that it takes. -/
def Account.deed {σ : Type} [Account σ] (s : σ) (r : Request) : Deed :=
  ⟨r, .ofResult (attempt r s).result⟩

namespace Shared
section
variable {σ : Type} [Account σ]

def deedsOf {α : Type} (w : Shared σ) (p : String → Process α) : List Deed :=
  ((p (Account.name w.account)).run none w.account).deeds

/-- The calls that an act makes, in order. -/
def deeds (w : Shared σ) : Act → List Deed
  | .unlock p => [Account.deed w.account (.unlock p)]
  | .move (.direct r _) => [Account.deed w.account r]
  | .move (.begin c) => w.deedsOf fun account => Session.begin account c
  | .move (.close i) => w.sessions[i]?.elim [] fun s => w.deedsOf fun account => s.close account
  | .move (.drop _) => []
  | .move (.relock i) =>
    w.handedOff[i]?.elim [] fun s => w.deedsOf fun account => s.handedOff account
  | .move (.signRoot c root domain) =>
    w.deedsOf fun account => Process.signRoot account c root domain
  | .move (.signPayload c payload domain) =>
    w.deedsOf fun account => Process.signPayload account c payload domain

def history (w : Shared σ) : List Act → List Deed
  | [] => []
  | a :: as => w.deeds a ++ (w.act a).history as

end
end Shared

namespace Vault
open Account Process

/-- The calls take the vault from one state to another, each answered as the vault answers it. -/
def Undergoes : Vault → List Deed → Vault → Prop
  | v, [], v' => v = v'
  | v, d :: ds, v' => d = Account.deed v d.request ∧
      Undergoes (Account.attempt d.request v).after ds v'

variable {v v' v'' : Vault} {ds : List Deed}

theorem undergoes_append {es : List Deed} :
    Undergoes v (ds ++ es) v'' ↔ ∃ v', Undergoes v ds v' ∧ Undergoes v' es v'' := by
  induction ds generalizing v with
  | nil => simp [Undergoes]
  | cons d ds ih => simp only [List.cons_append, Undergoes, ih, exists_and_left, and_assoc]

theorem undergoes_deed (v : Vault) (r : Request) :
    Undergoes v [Account.deed v r] (Account.attempt r v).after := ⟨rfl, rfl⟩

theorem run_undergoes {α : Type} (p : Process α) (v : Vault) :
    Undergoes v (p.run none v).deeds (p.run none v).account := by
  induction p generalizing v with
  | done a => exact rfl
  | report e next ih => exact ih v
  | probe c next ih => exact ih _ v
  | call r limit session next ih =>
    have hn := ih ((Account.attempt r v).outcome limit.milliseconds)
      ((Account.attempt r v).state limit.milliseconds)
    refine ⟨congrArg (Deed.mk r) (outcome_attempt r v limit.milliseconds), ?_⟩
    rw [← state_attempt r v limit.milliseconds]
    exact hn

end Vault

namespace Shared
open Vault

theorem act_undergoes (w : Shared Vault) (a : Act) :
    Undergoes w.account (w.deeds a) (w.act a).account := by
  cases a with
  | unlock p => exact undergoes_deed w.account (.unlock p)
  | move m =>
    cases m with
    | begin c => exact run_undergoes _ w.account
    | close i =>
      change Undergoes w.account (w.sessions[i]?.elim [] _) (w.close i).account
      rw [account_close]
      cases w.sessions[i]? with
      | none => exact rfl
      | some s => exact run_undergoes _ w.account
    | drop i => exact (account_drop w i).symm
    | relock i =>
      change Undergoes w.account (w.handedOff[i]?.elim [] _) (w.relock i).account
      rw [account_relock]
      cases w.handedOff[i]? with
      | none => exact rfl
      | some s => exact run_undergoes _ w.account
    | signRoot c root domain => exact run_undergoes _ w.account
    | signPayload c payload domain => exact run_undergoes _ w.account
    | direct r hr => exact undergoes_deed w.account r

theorem acts_undergoes (w : Shared Vault) (as : List Act) :
    Undergoes w.account (w.history as) (w.acts as).account := by
  induction as generalizing w with
  | nil => exact rfl
  | cons a as ih => exact undergoes_append.2 ⟨_, act_undergoes w a, ih (w.act a)⟩

end Shared

/-- The passphrase was given, by its hash, and no lock has come since. -/
def OpenedBy (k : Passphrase) (ds : List Deed) : Prop :=
  ∃ earlier d p since, ds = earlier ++ d :: since ∧ d.request = .unlock p ∧
    sha256 p = sha256 k.bytes ∧ ∀ e ∈ since, e.request ≠ .lock

theorem not_openedBy_nil (k : Passphrase) : ¬ OpenedBy k [] := by
  rintro ⟨earlier, d, p, since, h, -⟩
  exact List.append_ne_nil_of_right_ne_nil earlier (List.cons_ne_nil d since) h.symm

theorem openedBy_concat (k : Passphrase) (ds : List Deed) (d : Deed) :
    OpenedBy k (ds ++ [d]) ↔
      (∃ p, d.request = .unlock p ∧ sha256 p = sha256 k.bytes) ∨
        OpenedBy k ds ∧ d.request ≠ .lock := by
  constructor
  · rintro ⟨earlier, e, p, since, h, hr, hp, hs⟩
    rcases List.eq_nil_or_concat since with rfl | ⟨since, d', rfl⟩
    · have he : d = e := List.singleton_inj.1 (List.append_inj' h rfl).2
      subst he
      exact Or.inl ⟨p, hr, hp⟩
    · have hc : ds ++ [d] = (earlier ++ e :: since) ++ [d'] := by
        rw [h, List.concat_eq_append, List.append_assoc, List.cons_append]
      rw [List.concat_eq_append] at hs
      obtain ⟨rfl, hd⟩ := List.append_inj' hc rfl
      cases List.singleton_inj.1 hd
      obtain ⟨hs, hl⟩ := List.forall_mem_append.1 hs
      exact Or.inr ⟨⟨earlier, e, p, since, rfl, hr, hp, hs⟩, hl d (List.mem_singleton_self d)⟩
  · rintro (⟨p, hr, hp⟩ | ⟨⟨earlier, e, p, since, rfl, hr, hp, hs⟩, hl⟩)
    · exact ⟨ds, d, p, [], rfl, hr, hp, nofun⟩
    · refine ⟨earlier, e, p, since ++ [d], by simp, hr, hp, ?_⟩
      exact List.forall_mem_append.2 ⟨hs, List.forall_mem_singleton.2 hl⟩

namespace Vault
open Account Process

theorem unlocked_build {fs : List Feature} {k : Passphrase} (h : lastPassphrase fs = some k)
    (name : String) (keypair : Keypair) : (build name keypair fs).unlocked = false := by
  induction fs using List.reverseRecOn with
  | nil => cases h
  | append_singleton fs f ih =>
    have hb : build name keypair (fs ++ [f]) = (build name keypair fs).fit f := by
      rw [build, List.foldl_append]
      rfl
    rw [hb]
    cases f with
    | passphrase p => rfl
    | record =>
      rw [lastPassphrase, List.filterMap_append, List.filterMap_cons_none rfl,
        List.filterMap_nil, List.append_nil] at h
      exact ih h

section
variable {key : Option Passphrase} {k : Passphrase} {v v' : Vault} {ds : List Deed}

theorem Keyed.undergoes (h : v.Keyed key) (hd : Undergoes v ds v') : v'.Keyed key := by
  induction ds generalizing v with
  | nil => exact hd ▸ h
  | cons d ds ih => exact ih (h.attempt d.request) hd.2

theorem Keyed.unlocked_of_keyless (h : v.Keyed none) : v.unlocked = true :=
  h.unlocked_of_none h.hash_eq

/-- Only an unlock by the right passphrase unlocks a vault, and only a lock locks it. -/
theorem Keyed.unlocked_attempt_iff (h : v.Keyed (some k)) (r : Request) :
    (Account.attempt r v).after.unlocked = true ↔
      (∃ p, r = .unlock p ∧ sha256 p = sha256 k.bytes) ∨ v.unlocked = true ∧ r ≠ .lock := by
  have hh : v.passphraseHash = some (sha256 k.bytes) := h.hash_eq
  cases r with
  | unlock p =>
    change (v.unlock p).1.unlocked = true ↔ _
    rw [unlock_fst, hh]
    simp only [Bool.or_eq_true, beq_iff_eq, Option.some_inj, hashPassphrase,
      Request.unlock.injEq, exists_eq_left', ne_eq, reduceCtorEq, not_false_eq_true, and_true]
    rw [or_comm, eq_comm]
  | lock =>
    change v.lock.unlocked = true ↔ _
    rw [lock_eq, hh]
    simp
  | _ =>
    rw [unlocked_after_attempt rfl v]
    simp

/-- Along any calls, a vault that was locked at first is unlocked exactly while it is opened. -/
theorem Keyed.unlocked_undergoes_iff (h : v.Keyed (some k)) (hl : v.unlocked = false)
    (hd : Undergoes v ds v') : v'.unlocked = true ↔ OpenedBy k ds := by
  -- On the calls, from the last one: what it does to the lock is what it does to the openness.
  induction ds using List.reverseRecOn generalizing v' with
  | nil =>
    cases hd
    exact iff_of_false (Bool.eq_false_iff.1 hl) (not_openedBy_nil k)
  | append_singleton ds d ih =>
    obtain ⟨u, hu, -, rfl⟩ := undergoes_append.1 hd
    rw [(h.undergoes hu).unlocked_attempt_iff, ih hu, openedBy_concat]

theorem attempt_of_locked (hl : v.unlocked = false) {r : Request} (hr : r.signs = true) :
    (Account.attempt r v).result = .error .locked ∧ (Account.attempt r v).after = v := by
  have hu : ¬ v.unlocked = true := Bool.eq_false_iff.1 hl
  cases r with
  | sign digest => exact ⟨if_neg hu, rfl⟩
  | signGeneric root domain =>
    have hr : v.record root domain = .error .locked := if_neg hu
    have hc := carryOut_ofRoot v root domain
    rw [hr] at hc
    exact ⟨congrArg Prod.snd hc, congrArg Prod.fst hc⟩
  | _ => cases hr

end

/-- How a call of a history fares that finds the vault as `v` and leaves it as `v'`, where `past`
are the calls before it. -/
structure Gated (key : Option Passphrase) (past : List Deed) (d : Deed) (v v' : Vault) : Prop where
  opened : ∀ k ∈ key, ∀ g, d.signature? = some g → OpenedBy k past
  kept : ∀ k ∈ key, ∀ p, d.request = .unlock p → sha256 p ≠ sha256 k.bytes →
    v'.unlocked = v.unlocked
  /-- Nothing is put on record either. -/
  refused : d.request.signs = true → v.unlocked = false → d.outcome = .refused .locked ∧ v' = v
  free : key = none → v.unlocked = true ∧ v'.unlocked = true

theorem gated_of_undergoes {key : Option Passphrase} {v₀ v v' : Vault} {past : List Deed}
    {d : Deed} (hk : v₀.Keyed key) (hl : ∀ k ∈ key, v₀.unlocked = false)
    (hp : Undergoes v₀ past v) (hd : Undergoes v [d] v') : Gated key past d v v' := by
  obtain ⟨r, o⟩ := d
  obtain ⟨he, rfl⟩ := hd
  obtain rfl : o = .ofResult (Account.attempt r v).result := eq_of_heq (Deed.mk.inj he).2
  have hv : v.Keyed key := hk.undergoes hp
  have hrefused : r.signs = true → v.unlocked = false →
      Outcome.ofResult (Account.attempt r v).result = .refused .locked ∧
        (Account.attempt r v).after = v := by
    intro hs hu
    obtain ⟨hr, ha⟩ := attempt_of_locked hu hs
    exact ⟨congrArg Outcome.ofResult hr, ha⟩
  refine ⟨fun k hm g hg => ?_, fun k hm p hu hn => ?_, hrefused, fun hn => ?_⟩
  · obtain rfl := Option.mem_def.1 hm
    obtain ⟨hs, hr⟩ := Deed.signs_of_signature? hg
    have hu : v.unlocked = true := eq_true_of_ne_false fun hu => hr _ (hrefused hs hu).1
    exact (hk.unlocked_undergoes_iff (hl k rfl) hp).1 hu
  · obtain rfl := Option.mem_def.1 hm
    have hu : r = .unlock p := hu
    subst hu
    refine Bool.eq_iff_iff.2 ((hv.unlocked_attempt_iff (.unlock p)).trans ?_)
    simp [hn]
  · subst hn
    exact ⟨hv.unlocked_of_keyless, (hv.attempt r).unlocked_of_keyless⟩

end Vault

namespace Shared
open Vault

/-- Whatever is done with a vault, it signs nothing but while it is unlocked: with a passphrase,
from an unlock by the one that was set last to the next lock, and without one, always. -/
theorem signs_only_unlocked (name : String) (keypair : Keypair) (fs : List Feature)
    (as : List Act) :
    let w : Shared Vault := ⟨build name keypair fs, [], []⟩
    (lastPassphrase fs = none → (w.acts as).account.unlocked = true) ∧
      ∀ past d rest, w.history as = past ++ d :: rest → ∃ v v',
        Undergoes w.account past v ∧ Undergoes v [d] v' ∧
          Undergoes v' rest (w.acts as).account ∧ Gated (lastPassphrase fs) past d v v' := by
  intro w
  have hk : w.account.Keyed (lastPassphrase fs) := keyed_build name keypair fs
  have hl : ∀ k ∈ lastPassphrase fs, w.account.unlocked = false :=
    fun k hm => unlocked_build hm name keypair
  have hw : Undergoes w.account (w.history as) (w.acts as).account := acts_undergoes w as
  refine ⟨fun hn => ?_, fun past d rest h => ?_⟩
  · rw [hn] at hk
    exact (hk.undergoes hw).unlocked_of_keyless
  · rw [h] at hw
    obtain ⟨v, hp, hd, hr⟩ := undergoes_append.1 hw
    have hd : Undergoes v [d] (Account.attempt d.request v).after := ⟨hd, rfl⟩
    exact ⟨v, _, hp, hd, hr, gated_of_undergoes hk hl hp hd⟩

/-- Asks for a signature too early, gives a passphrase that was replaced, and then asks by a request
that has both. -/
def importunate : List Act :=
  [.move (.direct (.sign ⟨Octets.zero 32⟩) nofun), .unlock [1],
    .move (.signRoot ⟨.ofSeconds 1, [⟨[1]⟩, ⟨[2]⟩]⟩ ⟨Octets.zero 32⟩ ⟨Octets.zero 32⟩)]

theorem importunate_gated :
    let fs : List Feature := [.passphrase ⟨[1]⟩, .record, .passphrase ⟨[2]⟩]
    let w : Shared Vault := ⟨build "vault" ⟨Octets.zero 32⟩ fs, [], []⟩
    let ds := w.history importunate
    ds.map Deed.request =
        [.sign ⟨Octets.zero 32⟩, .unlock [1], .isUnlocked, .unlock [1], .unlock [2],
          .signGeneric ⟨Octets.zero 32⟩ ⟨Octets.zero 32⟩, .lock] ∧
      (∃ d rest, ds = d :: rest ∧ d.outcome = .refused .locked) ∧
      OpenedBy ⟨[2]⟩ (ds.take 5) := by
  intro fs w ds
  have hr : ds.map Deed.request =
      [.sign ⟨Octets.zero 32⟩, .unlock [1], .isUnlocked, .unlock [1], .unlock [2],
        .signGeneric ⟨Octets.zero 32⟩ ⟨Octets.zero 32⟩, .lock] := by decide +kernel
  have hs : (ds[5]?.bind Deed.signature?).isSome = true := by decide +kernel
  have hg := (signs_only_unlocked "vault" ⟨Octets.zero 32⟩ fs importunate).2
  refine ⟨hr, ?_, ?_⟩
  · have he : ds = _ :: _ := rfl
    obtain ⟨v, v', rfl, -, -, h⟩ := hg [] _ _ he
    exact ⟨_, _, he, (h.refused rfl rfl).1⟩
  · obtain ⟨g, hs⟩ := Option.isSome_iff_exists.1 hs
    obtain ⟨d, hd, hs⟩ := Option.bind_eq_some_iff.1 hs
    obtain ⟨hi, rfl⟩ := List.getElem?_eq_some_iff.1 hd
    have he : ds = ds.take 5 ++ ds[5] :: ds.drop 6 := by
      rw [← List.drop_eq_getElem_cons hi, List.take_append_drop]
    obtain ⟨v, v', -, -, -, h⟩ := hg _ _ _ he
    exact h.opened ⟨[2]⟩ rfl g hs

end Shared

end Notary
