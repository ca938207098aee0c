import Notary.Merkle
import Notary.Payload

/-! What becomes of bytes on their way into chunks loses nothing once it is known how many they
are. Numbers written in a fixed width, bytes filled up with zeros, bytes cut into chunks and basic
values of one kind can each be told apart by what is made of them. -/

namespace Notary

/-- A number that fits its width is given back by its bytes. -/
theorem ofLittleEndian_littleEndian_of_lt {k n : Nat} (h : n < 1 <<< (8 * k)) :
    ofLittleEndian (littleEndian k n) = n := by
  rw [ofLittleEndian_littleEndian, Nat.mod_eq_of_lt h]

theorem littleEndian_inj {k n n' : Nat} (h : n < 1 <<< (8 * k)) (h' : n' < 1 <<< (8 * k))
    (he : littleEndian k n = littleEndian k n') : n = n' := by
  rw [← ofLittleEndian_littleEndian_of_lt h, he, ofLittleEndian_littleEndian_of_lt h']

theorem Octets.padded_inj {n : Nat} {bs bs' : List UInt8} (hn : bs.length ≤ n)
    (hl : bs.length = bs'.length) (h : Octets.padded n bs = Octets.padded n bs') : bs = bs' := by
  apply List.ext_getElem hl
  intro i hi hi'
  have hd : bs.getD i 0 = bs'.getD i 0 := by
    rw [← getElem_padded bs (Nat.lt_of_lt_of_le hi hn), h, getElem_padded]
  rwa [← List.getElem_eq_getD 0, ← List.getElem_eq_getD 0] at hd

theorem cut_go_padded_inj {n fuel : Nat} {bs bs' : List UInt8} (hn : 0 < n)
    (hf : bs.length ≤ fuel) (hl : bs.length = bs'.length)
    (h : (cut.go n fuel bs).map (Octets.padded n) = (cut.go n fuel bs').map (Octets.padded n)) :
    bs = bs' := by
  induction fuel generalizing bs bs' with
  | zero =>
    rw [List.eq_nil_of_length_eq_zero (Nat.le_zero.1 hf)] at hl ⊢
    exact (List.eq_nil_of_length_eq_zero hl.symm).symm
  | succ fuel ih =>
    cases bs with
    | nil => exact (List.eq_nil_of_length_eq_zero hl.symm).symm
    | cons b bs =>
      cases bs' with
      | nil => cases hl
      | cons b' bs' =>
        have hc := List.cons.inj h
        -- The first pieces are of one length, and so are what they leave.
        have ht : (b :: bs).take n = (b' :: bs').take n := by
          apply Octets.padded_inj (List.length_take_le n _) _ hc.1
          rw [List.length_take, List.length_take, hl]
        have hd : (b :: bs).drop n = (b' :: bs').drop n := by
          apply ih _ _ hc.2
          · rw [List.length_drop]
            omega
          · rw [List.length_drop, List.length_drop, hl]
        rw [← List.take_append_drop n (b :: bs), ht, hd, List.take_append_drop]

theorem length_cut_go {n fuel : Nat} {bs bs' : List UInt8} (hl : bs.length = bs'.length) :
    (cut.go n fuel bs).length = (cut.go n fuel bs').length := by
  induction fuel generalizing bs bs' with
  | zero => rfl
  | succ fuel ih =>
    cases bs with
    | nil => rw [List.eq_nil_of_length_eq_zero hl.symm]
    | cons b bs =>
      cases bs' with
      | nil => cases hl
      | cons b' bs' =>
        have hd : ((b :: bs).drop n).length = ((b' :: bs').drop n).length := by
          rw [List.length_drop, List.length_drop, hl]
        exact congrArg (· + 1) (ih hd)

namespace Merkle

/-- How many chunks there are depends on the number of bytes alone. -/
theorem length_pack {bs bs' : List UInt8} (hl : bs.length = bs'.length) :
    (pack bs).length = (pack bs').length := by
  unfold pack cut
  rw [List.length_map, List.length_map, hl]
  exact length_cut_go hl

theorem pack_inj {bs bs' : List UInt8} (hl : bs.length = bs'.length) (h : pack bs = pack bs') :
    bs = bs' := by
  unfold pack cut at h
  rw [← hl] at h
  exact cut_go_padded_inj (by decide) (Nat.le_refl _) hl h

end Merkle

theorem loop_eq_append_drop (bs : ByteArray) (i : Nat) (r : List UInt8) :
    ByteArray.toList.loop bs i r = r.reverse ++ bs.data.toList.drop i := by
  fun_induction ByteArray.toList.loop bs i r with
  | case1 i r hi ih =>
    have hd : i < bs.data.toList.length := by
      rw [Array.length_toList]
      exact hi
    have hb : bs.get! i = bs.data.toList[i] := by
      change bs.data[i]! = _
      rw [Array.getElem_toList, getElem!_pos bs.data i hi]
    rw [ih, List.reverse_cons, List.drop_eq_getElem_cons hd, hb, List.append_assoc,
      List.singleton_append]
  | case2 i r hi =>
    have hd : bs.data.toList.length ≤ i := by
      rw [Array.length_toList]
      exact Nat.le_of_not_lt hi
    rw [List.drop_eq_nil_of_le hd, List.append_nil]

theorem toUTF8_toList_inj {s s' : String} (h : s.toUTF8.toList = s'.toUTF8.toList) : s = s' := by
  unfold ByteArray.toList at h
  rw [loop_eq_append_drop, loop_eq_append_drop] at h
  exact String.toByteArray_inj.1 (ByteArray.ext (Array.toList_inj.1 h))

/-- Kinds of basic value. All values of one kind are written in one width. -/
inductive Basic.Kind
  | bool
  | char
  | unsigned (w : Width)
  | signed (w : Width)
  | unitVariant
deriving DecidableEq, Repr

namespace Basic

def kind : Basic → Kind
  | bool _ => .bool
  | char _ => .char
  | unsigned w _ => .unsigned w
  | signed w _ => .signed w
  | unitVariant _ => .unitVariant

def Kind.width : Kind → Nat
  | bool => 1
  | char => 4
  | unsigned w => w.bytes
  | signed w => w.bytes
  | unitVariant => 4

theorem length_bytes (b : Basic) : b.bytes.length = b.kind.width := by
  cases b <;> simp [bytes, kind, Kind.width]

theorem littleEndian_bitVec_inj {k : Nat} {n n' : BitVec (8 * k)}
    (h : littleEndian k n.toNat = littleEndian k n'.toNat) : n = n' := by
  have hlt : ∀ m : BitVec (8 * k), m.toNat < 1 <<< (8 * k) := by
    intro m
    rw [Nat.one_shiftLeft]
    exact m.isLt
  exact BitVec.eq_of_toNat_eq (littleEndian_inj (hlt n) (hlt n') h)

theorem bytes_inj {b b' : Basic} (hk : b.kind = b'.kind) (h : b.bytes = b'.bytes) : b = b' := by
  cases b with
  | bool b =>
    cases b' with
    | bool b' => cases b <;> cases b' <;> first | rfl | cases h
    | _ => cases hk
  | char c =>
    cases b' with
    | char c' =>
      have hlt : ∀ d : Char, d.toNat < 1 <<< (8 * 4) := fun d => d.val.toNat_lt
      have hn : c.toNat = c'.toNat := littleEndian_inj (hlt c) (hlt c') h
      rw [Char.toNat_inj.1 hn]
    | _ => cases hk
  | unsigned w n =>
    cases b' with
    | unsigned w' n' =>
      cases hk
      rw [littleEndian_bitVec_inj h]
    | _ => cases hk
  | signed w n =>
    cases b' with
    | signed w' n' =>
      cases hk
      rw [littleEndian_bitVec_inj h]
    | _ => cases hk
  | unitVariant i =>
    cases b' with
    | unitVariant i' => rw [littleEndian_bitVec_inj (k := 4) h]
    | _ => cases hk

end Basic

end Notary
