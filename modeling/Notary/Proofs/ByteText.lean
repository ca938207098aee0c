import Mathlib.Data.Set.List
import Notary.Json.Bytes
import Notary.Proofs.ContainerDigest
import Notary.Proofs.JsonText
import Notary.Proofs.Packing

/-! Blocks and signatures as JSON text. Their own text is read back, and no other array than that of
their bytes, each a number by itself, is read as they are. A signature is read from a string too, and
then it is the UTF-8 bytes of the text that the string stands for, whichever way that is escaped. -/

namespace Notary

theorem toList_eq_data (bs : ByteArray) : bs.toList = bs.data.toList := by
  rw [ByteArray.toList, loop_eq_append_drop]
  rfl

theorem toUTF8_toList_eq (s : String) :
    s.toUTF8.toList = s.toList.flatMap String.utf8EncodeChar := by
  rw [toList_eq_data, String.toUTF8, ← String.utf8Encode_toList, List.utf8Encode,
    List.data_toByteArray]

/-- Where each element is what its reading comes from, so is the list. -/
theorem mapM_eq_some_iff {α β : Type} {f : α → Option β} {g : β → α}
    (h : ∀ a b, f a = some b ↔ a = g b) {as : List α} {bs : List β} :
    as.mapM f = some bs ↔ as = bs.map g := by
  induction as generalizing bs with
  | nil => cases bs <;> simp
  | cons a as ih =>
    rw [List.mapM_cons]
    cases bs with
    | nil => simp [Option.bind_eq_some_iff]
    | cons b bs => simp [← ih, ← h, Option.bind_eq_some_iff]

namespace Json

/-! What strings stand for. -/

/-- The string stands for the text: no half of a pair of surrogates is left in it. -/
def Denotes (ps : List Piece) (s : String) : Prop := codes ps = s.toList.map .scalar

instance (ps : List Piece) (s : String) : Decidable (Denotes ps s) :=
  inferInstanceAs (Decidable (codes ps = s.toList.map .scalar))

theorem Denotes.rawBytes_eq {ps : List Piece} {s : String} (h : Denotes ps s) :
    rawBytes ps = s.toUTF8.toList := by
  rw [rawBytes, h, toUTF8_toList_eq, List.flatMap_map]
  rfl

theorem scalar?_eq_some_iff (c : Code) (d : Char) : c.scalar? = some d ↔ c = .scalar d := by
  cases c <;> simp [Code.scalar?]

theorem text?_eq_some_iff {ps : List Piece} {s : String} :
    text? ps = some s ↔ (∀ p ∈ ps, p.isControl = false) ∧ Denotes ps s := by
  have ha : ps.any Piece.isControl = false ↔ ∀ p ∈ ps, p.isControl = false := by simp
  rw [text?, Denotes, ← ha]
  cases ps.any Piece.isControl with
  | true => simp
  | false =>
    rw [if_neg Bool.false_ne_true, and_iff_right rfl, ← mapM_eq_some_iff scalar?_eq_some_iff,
      Option.map_eq_some_iff]
    constructor
    · rintro ⟨ds, hd, rfl⟩
      rwa [String.toList_ofList]
    · intro h
      exact ⟨s.toList, h, String.ofList_toList⟩

/-! Arrays of numbers. -/

theorem natural?_eq_some_iff {j : Json} {n : Nat} : j.natural? = some n ↔ j = ofNat n := by
  constructor
  · intro h
    unfold natural? at h
    split at h
    · rw [ofNat, Option.some.inj h]
    · cases h
  · rintro rfl
    rfl

theorem byte?_eq_some_iff (j : Json) (b : UInt8) : j.byte? = some b ↔ j = ofNat b.toNat := by
  constructor
  · intro h
    obtain ⟨n, hn, hb⟩ := Option.bind_eq_some_iff.1 h
    rw [natural?_eq_some_iff.1 hn]
    split at hb
    · rename_i hlt
      rw [← Option.some.inj hb, UInt8.toNat_ofNat', Nat.mod_eq_of_lt hlt]
    · cases hb
  · rintro rfl
    rw [byte?_ofNat b.toNat_lt, UInt8.ofNat_toNat]

theorem byteArray?_eq_some_iff {j : Json} {bs : List UInt8} :
    j.byteArray? = some bs ↔ j = ofBytes bs := by
  cases j with
  | array js => simp [byteArray?, ofBytes, mapM_eq_some_iff byte?_eq_some_iff]
  | _ => simp [byteArray?, ofBytes]

theorem writable_ofNat (n : Nat) : (ofNat n).Writable := .number (List.forall_mem_nil _)

theorem writable_ofBytes (bs : List UInt8) : (ofBytes bs).Writable :=
  .array (List.forall_mem_map.2 fun b _ => writable_ofNat b.toNat)

/-- So many whole numbers, all from 0 to 255. -/
def AreBytes (n : Nat) (js : List Json) : Prop :=
  js.length = n ∧ ∀ j ∈ js, ∃ k < 256, j = ofNat k

theorem exists_ofBytes_iff {js : List Json} :
    (∃ bs, array js = ofBytes bs) ↔ ∀ j ∈ js, ∃ k < 256, j = ofNat k := by
  have hb : ∀ j, (∃ b : UInt8, ofNat b.toNat = j) ↔ ∃ k < 256, j = ofNat k := by
    intro j
    constructor
    · rintro ⟨b, rfl⟩
      exact ⟨b.toNat, b.toNat_lt, rfl⟩
    · rintro ⟨k, hk, rfl⟩
      exact ⟨UInt8.ofNat k, by rw [UInt8.toNat_ofNat', Nat.mod_eq_of_lt hk]⟩
  have hs := Set.ext_iff.1 (Set.range_list_map fun b : UInt8 => ofNat b.toNat) js
  simp only [Set.mem_range, Set.mem_ofPred_eq, hb] at hs
  simp only [ofBytes, array.injEq, ← hs, eq_comm]

/-- Where a type has one value for each so many bytes, so many bytes make an array of one. -/
theorem exists_eq_ofBytes_iff {α : Type} {bytes : α → List UInt8} {n : Nat}
    (h : ∀ bs, (∃ a, bytes a = bs) ↔ bs.length = n) {js : List Json} :
    (∃ a, array js = ofBytes (bytes a)) ↔ AreBytes n js := by
  rw [AreBytes, ← exists_ofBytes_iff]
  constructor
  · rintro ⟨a, ha⟩
    have hl := (h (bytes a)).1 ⟨a, rfl⟩
    exact ⟨by simpa [array.inj ha] using hl, bytes a, ha⟩
  · rintro ⟨hl, bs, hb⟩
    obtain ⟨a, rfl⟩ := (h bs).2 (by simpa [array.inj hb] using hl)
    exact ⟨a, hb⟩

end Json

open Json (parse? AreBytes Denotes)

namespace Block
variable {p : Part}

/-- The block that a text stands for. -/
def decode? (p : Part) (text : String) : Option (Block p) := (parse? text).bind (ofJson? p)

theorem ofJson?_eq_some_iff {j : Json} {b : Block p} : ofJson? p j = some b ↔ j = b.json := by
  rw [ofJson?, json, ← Json.byteArray?_eq_some_iff]
  simp [Option.bind_eq_some_iff, ofBytes?_eq_some_iff]

theorem decode?_eq_some_iff {text : String} {b : Block p} :
    decode? p text = some b ↔ parse? text = some b.json := by
  simp [decode?, Option.bind_eq_some_iff, ofJson?_eq_some_iff]

theorem exists_json_iff {js : List Json} :
    (∃ b : Block p, .array js = b.json) ↔ AreBytes 32 js :=
  Json.exists_eq_ofBytes_iff fun _ => exists_bytes_iff

end Block

namespace Signature

/-- The signature that a text stands for. -/
def decode? (text : String) : Option Signature := (parse? text).bind ofJson?

theorem ofBytes?_eq_some_iff {bs : List UInt8} {s : Signature} :
    ofBytes? bs = some s ↔ s.bytes = bs := by
  constructor
  · intro h
    obtain ⟨o, ho, rfl⟩ := Option.map_eq_some_iff.1 h
    exact Octets.ofList?_eq_some_iff.1 ho
  · rintro rfl
    exact ofBytes?_bytes s

theorem exists_bytes_iff {bs : List UInt8} : (∃ s : Signature, s.bytes = bs) ↔ bs.length = 64 := by
  have hn : ofBytes? bs ≠ none ↔ ¬ bs.length ≠ 64 := not_congr ofBytes?_eq_none_iff
  rw [Option.ne_none_iff_exists', Classical.not_not] at hn
  simpa only [ofBytes?_eq_some_iff] using hn

theorem ofJson?_array_eq_some_iff {js : List Json} {s : Signature} :
    ofJson? (.array js) = some s ↔ .array js = s.json := by
  have ha : ofJson? (.array js) = (Json.array js).byteArray?.bind ofBytes? := rfl
  rw [ha, json, ← Json.byteArray?_eq_some_iff]
  simp [Option.bind_eq_some_iff, ofBytes?_eq_some_iff]

theorem exists_json_iff {js : List Json} :
    (∃ s : Signature, .array js = s.json) ↔ AreBytes 64 js :=
  Json.exists_eq_ofBytes_iff fun _ => exists_bytes_iff

end Signature

/-- Blocks and signatures are read from the text that they are written as. A block is read from
nothing but an array of its 32 bytes, and a signature from an array of its 64 bytes or from a string
whose text has 64 bytes in UTF-8, which are its own. -/
theorem bytes_survive_text (text : String) :
    (∀ p (b : Block p), Block.decode? p b.json.compact = some b) ∧
      (∀ s : Signature, Signature.decode? s.json.compact = some s) ∧
      (∀ p (b : Block p), Block.decode? p text = some b ↔ parse? text = some b.json) ∧
      (∀ p, (∃ b, Block.decode? p text = some b) ↔
        ∃ js, parse? text = some (.array js) ∧ AreBytes 32 js) ∧
      (∀ js, parse? text = some (.array js) →
        ((∃ s, Signature.decode? text = some s) ↔ AreBytes 64 js) ∧
          ∀ s, Signature.decode? text = some s ↔ .array js = s.json) ∧
      ∀ ps t, parse? text = some (.string ps) → Denotes ps t →
        ((∃ s, Signature.decode? text = some s) ↔ t.utf8ByteSize = 64) ∧
          ∀ s, Signature.decode? text = some s ↔ s.bytes = t.toUTF8.toList := by
  have written : ∀ bs, parse? (Json.ofBytes bs).compact = some (Json.ofBytes bs) := fun bs =>
    Json.parse?_compact (Json.writable_ofBytes bs)
  refine ⟨fun p b => Block.decode?_eq_some_iff.2 (written b.bytes), fun s => ?_,
    fun p b => Block.decode?_eq_some_iff, fun p => ?_, fun js hj => ?_, fun ps t hj ht => ?_⟩
  · rw [Signature.decode?, Signature.json, written, Option.bind_some]
    exact Signature.ofJson?_json s
  · simp only [Block.decode?_eq_some_iff, ← Block.exists_json_iff (p := p)]
    constructor
    · rintro ⟨b, hb⟩
      exact ⟨_, hb, b, rfl⟩
    · rintro ⟨js, hj, b, hb⟩
      exact ⟨b, hb ▸ hj⟩
  · have hs : ∀ s, Signature.decode? text = some s ↔ .array js = s.json := by
      intro s
      rw [Signature.decode?, hj, Option.bind_some, Signature.ofJson?_array_eq_some_iff]
    refine ⟨?_, hs⟩
    simp only [hs, Signature.exists_json_iff]
  · have hs : ∀ s, Signature.decode? text = some s ↔ s.bytes = t.toUTF8.toList := by
      intro s
      rw [← ht.rawBytes_eq, ← Signature.ofBytes?_eq_some_iff, Signature.decode?, hj,
        Option.bind_some]
      rfl
    have hl : t.toUTF8.toList.length = t.utf8ByteSize := by
      rw [toList_eq_data, Array.length_toList]
      rfl
    refine ⟨?_, hs⟩
    simp only [hs, Signature.exists_bytes_iff, hl]

/-- Thirty-two letters with an accent, each of them escaped, make a signature of 64 bytes; of as many
numbers none can be made. -/
theorem accented_decoded :
    let ps : List Json.Piece := List.replicate 32 (.escaped 0xE9)
    let t := String.ofList (List.replicate 32 'é')
    let js : List Json := List.replicate 32 (.ofNat 0xE9)
    parse? (Json.string ps).compact = some (.string ps) ∧ Denotes ps t ∧
      (∃ s, Signature.decode? (Json.string ps).compact = some s ∧ s.bytes = t.toUTF8.toList) ∧
      parse? (Json.array js).compact = some (.array js) ∧
      ¬ ∃ s, Signature.decode? (Json.array js).compact = some s := by
  intro ps t js
  have hp : parse? (Json.string ps).compact = some (.string ps) :=
    Json.parse?_compact (.string (by simp [ps, Json.Piece.Writable]))
  have hj : parse? (Json.array js).compact = some (.array js) :=
    Json.parse?_compact (.array (by simp [js, Json.writable_ofNat]))
  have ht : Denotes ps t := by decide
  obtain ⟨-, -, -, -, -, hstring⟩ := bytes_survive_text (Json.string ps).compact
  obtain ⟨-, -, -, -, harray, -⟩ := bytes_survive_text (Json.array js).compact
  obtain ⟨hsome, hbytes⟩ := hstring ps t hp ht
  obtain ⟨s, hs⟩ := hsome.2 (by decide)
  refine ⟨hp, ht, ⟨s, hs, (hbytes s).1 hs⟩, hj, fun hd => ?_⟩
  have hl : js.length = 64 := ((harray js hj).1.1 hd).1
  exact absurd hl (by decide)

end Notary
