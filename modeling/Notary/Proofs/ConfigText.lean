import Mathlib.Data.List.Forall2
import Notary.Json.Config
import Notary.Proofs.ByteText
import Notary.Proofs.RequestTrace

/-! Configurations as JSON text. An object of a timeout and passphrases is read as just these, in
either order and however its strings are escaped; any member besides, or one that is there twice,
makes it unreadable. What is read can be used: no request under it ends for want of a timeout. -/

namespace Notary

namespace Json

/-- The way in which a character of a text is written. -/
def Piece.ofChar (c : Char) : Piece :=
  if c < ' ' ∨ c = '"' ∨ c = '\\' then .escaped (UInt16.ofNat c.toNat) else .plain c

theorem ofText_eq (s : String) : ofText s = string (s.toList.map Piece.ofChar) := rfl

theorem Piece.writable_ofChar (c : Char) : (Piece.ofChar c).Writable := by
  unfold ofChar
  split
  · trivial
  · rename_i h
    exact ⟨fun hq => h (Or.inr (Or.inl hq)), fun hb => h (Or.inr (Or.inr hb))⟩

theorem Piece.isControl_ofChar (c : Char) : (Piece.ofChar c).isControl = false := by
  unfold ofChar
  split
  · rfl
  · rename_i h
    exact decide_eq_false fun hc => h (Or.inl hc)

theorem Piece.code_ofChar (c : Char) (cs : List Code) :
    (Piece.ofChar c).code cs = .scalar c :: cs := by
  unfold ofChar
  split
  · rename_i h
    have hc : c.toNat ≤ 0x5C := by
      rcases h with h | rfl | rfl
      · have hlt : c.toNat < ' '.toNat := h
        exact Nat.le_trans (Nat.le_of_lt hlt) (by decide)
      · decide
      · decide
    have hu : (UInt16.ofNat c.toNat).toNat = c.toNat := by
      rw [UInt16.toNat_ofNat']
      omega
    have hlow : ∀ u : UInt16, 0x5C < u.toNat → decide (u ≤ UInt16.ofNat c.toNat) = false := by
      intro u hlt
      rw [decide_eq_false_iff_not, UInt16.le_iff_toNat_le, hu]
      omega
    have hl : isLead (UInt16.ofNat c.toNat) = false := by
      rw [isLead, hlow 0xD800 (by decide), Bool.false_and]
    have ht : isTrail (UInt16.ofNat c.toNat) = false := by
      rw [isTrail, hlow 0xDC00 (by decide), Bool.false_and]
    simp [code, hl, ht, hu]
  · rfl

theorem text?_ofChar (s : String) : text? (s.toList.map Piece.ofChar) = some s := by
  refine text?_eq_some_iff.2 ⟨List.forall_mem_map.2 fun c _ => Piece.isControl_ofChar c, ?_⟩
  unfold Denotes codes
  induction s.toList with
  | nil => rfl
  | cons c cs ih => rw [List.map_cons, List.foldr_cons, ih, Piece.code_ofChar, List.map_cons]

theorem writable_ofText (s : String) : (ofText s).Writable := by
  rw [ofText_eq]
  exact .string (List.forall_mem_map.2 fun c _ => Piece.writable_ofChar c)

end Json

namespace Process

theorem Signing.ne_zeroTimeout {account : String} {s : Session} {order : Order}
    {xs : List Exchange} {outcome : Except Error Signature}
    (h : Signing account s order xs (.finished outcome)) : outcome ≠ .error .zeroTimeout := by
  cases h with
  | withdrawn => exact nofun
  | ended w o => cases o <;> exact nofun

theorem SessionTrace.ne_zeroTimeout {account : String} {c : Config} {order : Order}
    {xs : List Exchange} {result : Except Error Signature}
    (h : SessionTrace account c order xs result) : result ≠ .error .zeroTimeout := by
  cases h with
  | notLockable h => exact h.ne_zeroTimeout
  | alreadyUnlocked w h => exact h.ne_zeroTimeout
  | @unlocked qs rest p xs ys zs outcome lock w w' hps h hg hl =>
    cases lock with
    | ok u => exact hg.ne_zeroTimeout
    | error source => exact nofun
  | _ => exact nofun

/-- Only a timeout of zero fails a request for want of one. -/
theorem RequestTrace.timeout_eq_zero {account : String} {c : Config} {root : Root}
    {domain : Domain} {xs : List Exchange}
    (h : RequestTrace account c root domain xs (.error .zeroTimeout)) : c.timeout = ⟨0⟩ := by
  cases h with
  | zeroTimeout h => exact h
  | protecting h l g hs => exact absurd rfl hs.ne_zeroTimeout
  | plain h l hs => exact absurd rfl hs.ne_zeroTimeout

end Process

namespace Config
open Json (parse? text?)
open Process (signRoot)

/-- A member of an object, its name as it is written. -/
abbrev Member := List Json.Piece × Json

/-- What a draft comes to with one more member: only a name that it has no value for is taken. -/
inductive Draft.Adds (d : Draft) : Member → Draft → Prop
  | timeout {k : List Json.Piece} {j : Json} {t : Option Nat} (hk : text? k = some "timeout_ms")
      (hd : d.timeout = none) (hj : readTimeout? j = some t) :
      Adds d (k, j) { d with timeout := some t }
  | passphrases {k : List Json.Piece} {j : Json} {ps : List String}
      (hk : text? k = some "passphrases") (hd : d.passphrases = none)
      (hj : readPassphrases? j = some ps) : Adds d (k, j) { d with passphrases := some ps }

theorem Draft.addMember?_eq_some_iff {d d' : Draft} {m : Member} :
    d.addMember? m = some d' ↔ d.Adds m d' := by
  obtain ⟨k, j⟩ := m
  constructor
  · intro h
    obtain ⟨key, hk, hm⟩ := Option.bind_eq_some_iff.1 h
    clear h
    split at hm
    · obtain ⟨t, hj, ht⟩ := Option.bind_eq_some_iff.1 hm
      cases ht
      exact .timeout hk rfl hj
    · obtain ⟨ps, hj, hp⟩ := Option.bind_eq_some_iff.1 hm
      cases hp
      exact .passphrases hk rfl hj
    · cases hm
  · obtain ⟨timeout, passphrases⟩ := d
    rintro (⟨hk, hd, hj⟩ | ⟨hk, hd, hj⟩)
    · cases hd
      simp [addMember?, hk, hj]
    · cases hd
      simp [addMember?, hk, hj]

/-- The names of the members, as far as they are texts. -/
def names (ms : List Member) : List (Option String) := ms.map fun m => text? m.1

/-- The names are all known, none of them comes twice, and none has a value already. -/
theorem names_of_foldlM {ms : List Member} {d d' : Draft}
    (h : ms.foldlM Draft.addMember? d = some d') :
    names ms ⊆ [some "timeout_ms", some "passphrases"] ∧ (names ms).Nodup ∧
      (d.timeout.isSome → some "timeout_ms" ∉ names ms) ∧
      (d.passphrases.isSome → some "passphrases" ∉ names ms) := by
  induction ms generalizing d with
  | nil =>
    exact ⟨List.nil_subset _, List.nodup_nil, fun _ => List.not_mem_nil, fun _ => List.not_mem_nil⟩
  | cons m ms ih =>
    rw [List.foldlM_cons] at h
    obtain ⟨e, he, h⟩ := Option.bind_eq_some_iff.1 h
    obtain ⟨hsub, hnodup, ht, hp⟩ := ih h
    cases Draft.addMember?_eq_some_iff.1 he with
    | @timeout k j t hk hd hj =>
      have hn : names ((k, j) :: ms) = some "timeout_ms" :: names ms := by
        rw [names, List.map_cons, hk, names]
      rw [hn]
      refine ⟨List.cons_subset.2 ⟨by simp, hsub⟩, List.nodup_cons.2 ⟨ht rfl, hnodup⟩, ?_, ?_⟩
      · simp [hd]
      · intro hs
        simpa using hp hs
    | @passphrases k j ps hk hd hj =>
      have hn : names ((k, j) :: ms) = some "passphrases" :: names ms := by
        rw [names, List.map_cons, hk, names]
      rw [hn]
      refine ⟨List.cons_subset.2 ⟨by simp, hsub⟩, List.nodup_cons.2 ⟨hp rfl, hnodup⟩, ?_, ?_⟩
      · intro hs
        simpa using ht hs
      · simp [hd]

/-- The members by which a timeout is given: none if there is none, or one of that name. -/
inductive GivesTimeout : Option UInt64 → List Member → Prop
  | absent : GivesTimeout none []
  | null {k : List Json.Piece} (hk : text? k = some "timeout_ms") : GivesTimeout none [(k, .null)]
  | number {k : List Json.Piece} (t : UInt64) (hk : text? k = some "timeout_ms") :
      GivesTimeout (some t) [(k, .ofNat t.toNat)]

/-- The members by which passphrases are given: none if there are none, or one of that name. -/
inductive GivesPassphrases : List String → List Member → Prop
  | absent : GivesPassphrases [] []
  | array {k : List Json.Piece} {ps : List String} {qs : List (List Json.Piece)}
      (hk : text? k = some "passphrases") (hq : List.Forall₂ (fun q p => text? q = some p) qs ps) :
      GivesPassphrases ps [(k, .array (qs.map .string))]

/-- The members carry a timeout and passphrases, in either order. -/
def Carries (t : Option UInt64) (ps : List String) (ms : List Member) : Prop :=
  ∃ ts qs, GivesTimeout t ts ∧ GivesPassphrases ps qs ∧ (ms = ts ++ qs ∨ ms = qs ++ ts)

/-- What a timeout in milliseconds and passphrases come to. -/
def ofTerms (t : Option UInt64) (ps : List String) : Config where
  timeout := t.elim (.ofSeconds 10) fun ms => .ofMilliseconds ms.toNat
  passphrases := ps.map fun p => ⟨p.toUTF8.toList⟩

theorem readTimeout?_toNat (t : UInt64) : readTimeout? (.ofNat t.toNat) = some (some t.toNat) := by
  have hr : readTimeout? (.ofNat t.toNat) =
      if t.toNat < UInt64.size then some (some t.toNat) else none := rfl
  rw [hr, if_pos t.toNat_lt_size]

theorem mapM_string?_of_forall₂ {ps : List String} {qs : List (List Json.Piece)}
    (h : List.Forall₂ (fun q p => text? q = some p) qs ps) :
    (qs.map Json.string).mapM Json.string? = some ps := by
  induction h with
  | nil => rfl
  | @cons q p qs ps hq h ih =>
    have hs : Json.string? (.string q) = some p := hq
    rw [List.map_cons, List.mapM_cons, hs, ih]
    rfl

theorem GivesTimeout.foldlM_eq {t : Option UInt64} {ts : List Member} (h : GivesTimeout t ts) :
    ∃ d : Option (Option Nat), d.join = t.map UInt64.toNat ∧
      ∀ q, ts.foldlM Draft.addMember? ⟨none, q⟩ = some ⟨d, q⟩ := by
  cases h with
  | absent => exact ⟨none, rfl, fun q => rfl⟩
  | null hk =>
    refine ⟨some none, rfl, fun q => ?_⟩
    have hn : readTimeout? .null = some none := rfl
    have ha := Draft.addMember?_eq_some_iff.2 (Draft.Adds.timeout (d := ⟨none, q⟩) hk rfl hn)
    rw [List.foldlM_cons, ha]
    rfl
  | number t hk =>
    refine ⟨some (some t.toNat), rfl, fun q => ?_⟩
    have ha := Draft.addMember?_eq_some_iff.2
      (Draft.Adds.timeout (d := ⟨none, q⟩) hk rfl (readTimeout?_toNat t))
    rw [List.foldlM_cons, ha]
    rfl

theorem GivesPassphrases.foldlM_eq {ps : List String} {qs : List Member}
    (h : GivesPassphrases ps qs) :
    ∃ d : Option (List String), d.getD [] = ps ∧
      ∀ t, qs.foldlM Draft.addMember? ⟨t, none⟩ = some ⟨t, d⟩ := by
  cases h with
  | absent => exact ⟨none, rfl, fun t => rfl⟩
  | array hk hq =>
    refine ⟨some ps, rfl, fun t => ?_⟩
    have hr : readPassphrases? (.array _) = some ps := mapM_string?_of_forall₂ hq
    have ha := Draft.addMember?_eq_some_iff.2
      (Draft.Adds.passphrases (d := ⟨t, none⟩) hk rfl hr)
    rw [List.foldlM_cons, ha]
    rfl

/-- Of an object that carries them, nothing is lost. -/
theorem Carries.readDraft?_eq {t : Option UInt64} {ps : List String} {ms : List Member}
    (h : Carries t ps ms) : ∃ d, readDraft? (.object ms) = some d ∧ d.config = ofTerms t ps := by
  obtain ⟨ts, qs, ht, hq, hms⟩ := h
  obtain ⟨dt, htimeout, hts⟩ := ht.foldlM_eq
  obtain ⟨dp, hpassphrases, hqs⟩ := hq.foldlM_eq
  refine ⟨⟨dt, dp⟩, ?_, ?_⟩
  · rcases hms with rfl | rfl
    · rw [readDraft?, List.foldlM_append, hts, Option.bind_eq_bind, Option.bind_some, hqs]
    · rw [readDraft?, List.foldlM_append, hqs, Option.bind_eq_bind, Option.bind_some, hts]
  · rw [Draft.config, ofTerms, htimeout, hpassphrases]
    cases t <;> rfl

theorem ofTerms_timeout_eq_zero_iff {t : Option UInt64} {ps : List String} :
    (ofTerms t ps).timeout = ⟨0⟩ ↔ t = some 0 := by
  cases t with
  | none => simp [ofTerms, Duration.ofSeconds]
  | some n =>
    have hn : n = 0 ↔ n.toNat = 0 := UInt64.toNat_inj.symm
    simp only [ofTerms, Option.elim, Duration.ofMilliseconds, Duration.mk.injEq, Option.some.injEq,
      hn]
    omega

theorem ofJson_eq {text : String} {d : Draft} (h : (parse? text).bind readDraft? = some d) :
    ofJson text = if d.config.timeout = ⟨0⟩ then .error .zeroTimeout else .ok d.config := by
  rw [ofJson, h]
  simp only [validate]
  split <;> rfl

/-- What is read is usable. -/
theorem validate_of_ofJson {text : String} {c : Config} (h : ofJson text = .ok c) :
    c.validate = .ok () := by
  rw [validate_eq_ok_iff]
  cases hd : (parse? text).bind readDraft? with
  | none =>
    rw [ofJson, hd] at h
    cases h
  | some d =>
    rw [ofJson_eq hd] at h
    split at h
    · cases h
    · rename_i hn
      cases h
      exact hn

/-- A member of another name, or one more of the same, makes an object unreadable. -/
theorem readDraft?_eq_none {ms : List Member}
    (h : (∃ n ∈ names ms, n ≠ some "timeout_ms" ∧ n ≠ some "passphrases") ∨ ¬ (names ms).Nodup) :
    readDraft? (.object ms) = none := by
  rw [← Option.not_isSome_iff_eq_none, Option.isSome_iff_exists]
  rintro ⟨d, hd⟩
  obtain ⟨hsub, hnodup, -⟩ := names_of_foldlM hd
  rcases h with ⟨n, hn, ht, hp⟩ | h
  · rcases List.mem_cons.1 (hsub hn) with hm | hm
    · exact ht hm
    · exact hp (List.mem_singleton.1 hm)
  · exact h hnodup

/-- The members of an object with a timeout, null if there is none, and passphrases. -/
def document (t : Option UInt64) (ps : List String) : List Member :=
  [("timeout_ms".toList.map .ofChar, t.elim .null fun n => .ofNat n.toNat),
    ("passphrases".toList.map .ofChar, .array (ps.map .ofText))]

theorem writable_document {t : Option UInt64} {ps : List String} {ms : List Member}
    (h : ms ⊆ document t ps) : (Json.object ms).Writable := by
  have key : ∀ s : String, ∀ p ∈ s.toList.map Json.Piece.ofChar, p.Writable := fun s =>
    List.forall_mem_map.2 fun c _ => Json.Piece.writable_ofChar c
  have hd : ∀ m ∈ document t ps, (∀ p ∈ m.1, p.Writable) ∧ m.2.Writable := by
    refine List.forall_mem_cons.2 ⟨⟨key _, ?_⟩, List.forall_mem_singleton.2 ⟨key _, ?_⟩⟩
    · cases t with
      | none => exact .null
      | some n => exact Json.writable_ofNat n.toNat
    · exact .array (List.forall_mem_map.2 fun p _ => Json.writable_ofText p)
  exact .object (fun m hm => (hd m (h hm)).1) fun m hm => (hd m (h hm)).2

theorem carries_document (t : Option UInt64) (ps : List String) :
    Carries t ps (document t ps) ∧ Carries t ps (document t ps).reverse := by
  have ht : GivesTimeout t [("timeout_ms".toList.map .ofChar, t.elim .null (.ofNat ·.toNat))] := by
    cases t with
    | none => exact .null (Json.text?_ofChar _)
    | some n => exact .number n (Json.text?_ofChar _)
  have hq : List.Forall₂ (fun q p => text? q = some p)
      (ps.map fun p => p.toList.map Json.Piece.ofChar) ps :=
    List.forall₂_map_left_iff.2 (List.forall₂_same.2 fun p _ => Json.text?_ofChar p)
  have hp : GivesPassphrases ps [("passphrases".toList.map .ofChar, .array (ps.map .ofText))] := by
    have hps : ps.map Json.ofText =
        (ps.map fun p => p.toList.map Json.Piece.ofChar).map .string := by
      rw [List.map_map]
      exact List.map_congr_left fun p _ => Json.ofText_eq p
    rw [hps]
    exact .array (Json.text?_ofChar _) hq
  exact ⟨⟨_, _, ht, hp, Or.inl rfl⟩, ⟨_, _, ht, hp, Or.inr rfl⟩⟩

/-- A configuration is read as it was written: a timeout of whole milliseconds and the passphrases
in their order, unless the timeout is zero. An object with any other member, or with one twice, is
not read at all. What is read can be used: no request under it fails for want of a timeout. -/
theorem ofJson_reads (text : String) :
    (∀ t ps ms, parse? text = some (.object ms) → Carries t ps ms →
      ofJson text = if t = some 0 then .error .zeroTimeout else .ok (ofTerms t ps)) ∧
      (∀ t ps ms, ms = document t ps ∨ ms = (document t ps).reverse →
        ofJson (Json.object ms).compact =
          if t = some 0 then .error .zeroTimeout else .ok (ofTerms t ps)) ∧
      (∀ ms, parse? text = some (.object ms) →
        (∃ n ∈ names ms, n ≠ some "timeout_ms" ∧ n ≠ some "passphrases") ∨ ¬ (names ms).Nodup →
          ofJson text = .error .malformedConfig) ∧
      ∀ c, ofJson text = .ok c → c.validate = .ok () ∧
        ∀ (σ : Type) [Account σ] (account : String) (root : Root) (domain : Domain)
          (left : Option Nat) (s : σ), ((signRoot account c root domain).run left s).ending ≠
            .finished (.error .zeroTimeout) := by
  have reads : ∀ text t ps ms, parse? text = some (.object ms) → Carries t ps ms →
      ofJson text = if t = some 0 then .error .zeroTimeout else .ok (ofTerms t ps) := by
    intro text t ps ms hp hc
    obtain ⟨d, hd, hconfig⟩ := hc.readDraft?_eq
    rw [ofJson_eq (by rw [hp]; exact hd), hconfig]
    simp only [ofTerms_timeout_eq_zero_iff]
  refine ⟨reads text, fun t ps ms hms => ?_, fun ms hp hn => ?_, fun c hc => ⟨?_, ?_⟩⟩
  · have hsub : ms ⊆ document t ps := by
      rcases hms with rfl | rfl
      · exact List.Subset.refl _
      · exact fun m hm => List.mem_reverse.1 hm
    have hcarries : Carries t ps ms := by
      rcases hms with rfl | rfl
      · exact (carries_document t ps).1
      · exact (carries_document t ps).2
    exact reads _ t ps ms (Json.parse?_compact (writable_document hsub)) hcarries
  · rw [ofJson, hp, Option.bind_some, readDraft?_eq_none hn]
  · exact validate_of_ofJson hc
  · intro σ _ account root domain left s he
    have hz := (Process.requestTrace_of_finished he).timeout_eq_zero
    exact validate_eq_ok_iff.1 (validate_of_ofJson hc) hz

/-- With its members written out twice, what was read before is not read any more. -/
theorem repeated_refused :
    let t := some 1500
    let ps := ["clé \"1\"", ""]
    let once := (Json.object (document t ps)).compact
    let twice := (Json.object (document t ps ++ document t ps)).compact
    parse? once = some (.object (document t ps)) ∧ Carries t ps (document t ps) ∧
      ofJson once = .ok (ofTerms t ps) ∧
      ((Process.signRoot "a" (ofTerms t ps) ⟨Octets.zero 32⟩ ⟨Octets.zero 32⟩).run none
        Scripted.willing).ending ≠ .finished (.error .zeroTimeout) ∧
      parse? twice = some (.object (document t ps ++ document t ps)) ∧
      ¬ (names (document t ps ++ document t ps)).Nodup ∧
      ofJson twice = .error .malformedConfig := by
  intro t ps once twice
  have honce : parse? once = some (.object (document t ps)) :=
    Json.parse?_compact (writable_document (List.Subset.refl _))
  have htwice : parse? twice = some (.object (document t ps ++ document t ps)) :=
    Json.parse?_compact (writable_document fun m hm => (List.mem_append.1 hm).elim id id)
  have hcarries : Carries t ps (document t ps) := (carries_document t ps).1
  have hnodup : ¬ (names (document t ps ++ document t ps)).Nodup := by
    rw [names, List.map_append, List.nodup_append]
    exact fun h => h.2.2 _ List.mem_cons_self _ List.mem_cons_self rfl
  obtain ⟨hread, -, -, husable⟩ := ofJson_reads once
  obtain ⟨-, -, hrefused, -⟩ := ofJson_reads twice
  have hok : ofJson once = .ok (ofTerms t ps) := hread t ps _ honce hcarries
  have hending := (husable _ hok).2 Scripted "a" ⟨Octets.zero 32⟩ ⟨Octets.zero 32⟩ none .willing
  exact ⟨honce, hcarries, hok, hending, htwice, hnodup, hrefused _ htwice (Or.inr hnodup)⟩

end Config

end Notary
