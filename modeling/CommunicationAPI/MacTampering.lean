import CommunicationAPI.FrameSizes
import CommunicationAPI.LaneChecksum

/-!
# Changes of a packet that the authentication code detects

Octet `k` of the code is octet `k` of the key and lane `k` of the data under
exclusive or. The octets after the full words continue the same deal.
-/

namespace CommunicationAPI
open Octets LaneChecksum

/-- Lane `k` of the octets of `data`. -/
def dataLane (k : ℕ) (data : List UInt8) (n : ℕ) : UInt8 :=
  lane (· ^^^ ·) 0 8 k n fun i => data.getD i 0

theorem octetOf_word (data : List UInt8) (i : ℕ) {k : ℕ} (hk : k < 8) :
    octetOf (word data i) k = data.getD (8 * i + k) 0 := by
  unfold word
  rw [octetOf_ofNat_decode (List.length_take_le 8 _), List.getD_eq_getElem?_getD,
    List.getElem?_take_of_lt hk, List.getElem?_drop, List.getD_eq_getElem?_getD]

theorem decode_replicate_append (j : ℕ) (l : List UInt8) :
    decode (List.replicate j 0 ++ l) = 256 ^ j * decode l := by
  induction j with
  | zero => simp
  | succ j ih =>
    rw [List.replicate_succ, List.cons_append, decode, ih, pow_succ']
    simp [Nat.mul_assoc]

/-- An octet shifted to its place, as a word with that octet only. -/
theorem shiftLeft_eq_decode (b : UInt8) {j : ℕ} (hj : j < 8) :
    b.toUInt64 <<< UInt64.ofNat (8 * j) =
      UInt64.ofNat (decode (List.replicate j 0 ++ [b])) := by
  have hshift : (UInt64.ofNat (8 * j)).toNat % 64 = 8 * j := by
    rw [UInt64.toNat_ofNat']
    omega
  apply UInt64.toNat_inj.mp
  rw [UInt64.toNat_shiftLeft, hshift, UInt8.toNat_toUInt64, UInt64.toNat_ofNat',
    decode_replicate_append, Nat.shiftLeft_eq, pow_mul, Nat.mul_comm]
  rfl

theorem octetOf_shiftLeft (b : UInt8) {j : ℕ} (hj : j < 8) (k : ℕ) :
    octetOf (b.toUInt64 <<< UInt64.ofNat (8 * j)) k = if k = j then b else 0 := by
  rw [shiftLeft_eq_decode _ hj, octetOf_ofNat_decode (by simp; omega)]
  split_ifs with hkj
  · rw [hkj, List.getD_eq_getElem?_getD, List.getElem?_append_right (by simp)]
    simp
  · rw [List.getD_eq_getElem?_getD]
    rcases Nat.lt_or_gt_of_ne hkj with hlt | hgt
    · rw [List.getElem?_append_left (by simpa using hlt)]
      simp [hlt]
    · rw [List.getElem?_eq_none (by simp; omega)]
      rfl

theorem octetOf_remainingOctet (data : List UInt8) {j : ℕ} (hj : j < 8) (k : ℕ) :
    octetOf (remainingOctet data j) k =
      if k = j then data.getD (8 * (data.length / 8) + j) 0 else 0 :=
  octetOf_shiftLeft _ hj k

theorem octetOf_foldl_word (data : List UInt8) (key : UInt64) (q : ℕ) {k : ℕ} (hk : k < 8) :
    octetOf ((List.range q).foldl (fun mac i => mac ^^^ word data i) key) k =
      octetOf key k ^^^ dataLane k data (8 * q) := by
  induction q with
  | zero => exact (UInt8.xor_zero).symm
  | succ q ih =>
    rw [List.range_succ, List.foldl_append, List.foldl_cons, List.foldl_nil, octetOf_xor, ih,
      octetOf_word data q hk]
    unfold dataLane
    rw [Nat.mul_add, lane_add _ _ _ _ (by norm_num), if_pos (by simpa using hk), UInt8.xor_assoc,
      UInt8.xor_comm (lane _ _ _ _ _ _)]

theorem octetOf_foldl_remaining (data : List UInt8) (mac : UInt64) {r k : ℕ} (hr : r ≤ 8) :
    octetOf ((List.range r).foldl (fun mac j => mac ^^^ remainingOctet data j) mac) k =
      octetOf mac k ^^^ if k < r then data.getD (8 * (data.length / 8) + k) 0 else 0 := by
  induction r with
  | zero => simp
  | succ r ih =>
    rw [List.range_succ, List.foldl_append, List.foldl_cons, List.foldl_nil, octetOf_xor,
      ih (by omega), octetOf_remainingOctet data (by omega)]
    rcases Nat.lt_trichotomy k r with hlt | rfl | hgt
    · rw [if_pos hlt, if_neg hlt.ne, if_pos (by omega), UInt8.xor_zero]
    · rw [if_neg (Nat.lt_irrefl k), if_pos rfl, if_pos (Nat.lt_succ_self k), UInt8.xor_zero]
    · rw [if_neg (by omega), if_neg hgt.ne', if_neg (by omega), UInt8.xor_zero]

/-- Each octet of the code is that of the key and one lane of the data. -/
theorem octetOf_generateMac (data : List UInt8) (key : SessionKey) {k : ℕ} (hk : k < 8) :
    octetOf (generateMac data key) k = octetOf key k ^^^ dataLane k data data.length := by
  have htail : data.length % 8 < 8 := Nat.mod_lt _ (by norm_num)
  have hdeal : dataLane k data data.length =
      if k < data.length % 8 then
        data.getD (8 * (data.length / 8) + k) 0 ^^^ dataLane k data (8 * (data.length / 8))
      else dataLane k data (8 * (data.length / 8)) := by
    have hadd := lane_add (· ^^^ ·) (0 : UInt8) 8 (data.length / 8) (k := k) htail.le
      fun i => data.getD i 0
    rwa [Nat.div_add_mod] at hadd
  unfold generateMac
  rw [octetOf_foldl_remaining data _ htail.le, octetOf_foldl_word data key _ hk, hdeal,
    UInt8.xor_assoc]
  split_ifs
  · rw [UInt8.xor_comm (dataLane _ _ _)]
  · rw [UInt8.xor_zero]

/-- `l'` is `l` with some octets changed, all of them among `w` consecutive ones. -/
structure Burst (w : ℕ) (l l' : List UInt8) : Prop where
  length_eq : l'.length = l.length
  changed : l' ≠ l
  confined : ∃ s, ∀ i, l'[i]? ≠ l[i]? → s ≤ i ∧ i < s + w

theorem burst_append {w : ℕ} (a c : List UInt8) {b b' : List UInt8}
    (hlength : b'.length = b.length) (hw : b.length ≤ w) (hne : b' ≠ b) :
    Burst w (a ++ (b ++ c)) (a ++ (b' ++ c)) where
  length_eq := by simp only [List.length_append, hlength]
  changed heq := hne (List.append_cancel_right (List.append_cancel_left heq))
  confined := by
    refine ⟨a.length, fun i hi => ?_⟩
    by_contra hout
    refine hi ?_
    by_cases hbefore : i < a.length
    · rw [List.getElem?_append_left hbefore, List.getElem?_append_left hbefore]
    · rw [List.getElem?_append_right (by omega), List.getElem?_append_right (by omega),
        List.getElem?_append_right (by omega), List.getElem?_append_right (by omega), hlength]

theorem getElem?_ne_of_getD_ne {l l' : List UInt8} {i : ℕ} (h : l'.getD i 0 ≠ l.getD i 0) :
    l'[i]? ≠ l[i]? := by
  intro heq
  rw [List.getD_eq_getElem?_getD, List.getD_eq_getElem?_getD, heq] at h
  exact h rfl

theorem Burst.exists_changed {w : ℕ} {l l' : List UInt8} (h : Burst w l l') :
    ∃ i < l.length, l'.getD i 0 ≠ l.getD i 0 := by
  by_contra hall
  refine h.changed (List.ext_getElem h.length_eq fun i hi hi' => ?_)
  by_contra hne
  refine hall ⟨i, hi', ?_⟩
  rwa [List.getD_eq_getElem?_getD, List.getD_eq_getElem?_getD, List.getElem?_eq_getElem hi,
    List.getElem?_eq_getElem hi']

/-- A burst of at most eight octets changes the code, for every key. -/
theorem generateMac_ne_of_burst {data data' : List UInt8} (h : Burst 8 data data')
    (key : SessionKey) : generateMac data' key ≠ generateMac data key := by
  obtain ⟨i, hi, hne⟩ := h.exists_changed
  obtain ⟨s, hs⟩ := h.confined
  have hlane : dataLane (i % 8) data' data.length ≠ dataLane (i % 8) data data.length :=
    lane_ne_of_burst (fun a b : UInt8 => a ^^^ b) 0 8 (fun _ _ _ => (UInt8.xor_left_inj _).mp)
      (fun j _ hj => hs j (getElem?_ne_of_getD_ne hj)) hi hne
  intro hmac
  have hmod : i % 8 < 8 := Nat.mod_lt _ (by norm_num)
  have hoctet := octetOf_generateMac data' key hmod
  rw [hmac, octetOf_generateMac data key hmod, h.length_eq] at hoctet
  exact hlane ((UInt8.xor_right_inj _).mp hoctet).symm

theorem toNat_ofNat_decode {l : List UInt8} (hl : l.length = 8) :
    (UInt64.ofNat (decode l)).toNat = decode l := by
  have hlt := decode_lt l
  rw [hl] at hlt
  rw [UInt64.toNat_ofNat']
  exact Nat.mod_eq_of_lt hlt

theorem ofNat_decode_inj {l l' : List UInt8} (hl : l.length = 8) (hl' : l'.length = 8)
    (h : UInt64.ofNat (decode l) = UInt64.ofNat (decode l')) : l = l' := by
  have hnat := congrArg UInt64.toNat h
  rw [toNat_ofNat_decode hl, toNat_ofNat_decode hl'] at hnat
  rw [← encode_decode l, ← encode_decode l', hl, hl', hnat]

namespace Gateway
variable (g : Gateway) (rest : Memory) (h : Header)

/-- The check on a frame that consists of `data` and eight octets `mac`. -/
theorem verifies_receivedFrame (data : List UInt8) {mac : List UInt8} (hmac : mac.length = 8) :
    g.verifies (receivedFrame rest ⟨h, data ++ mac⟩) =
      decide (generateMac data g.shared.sessionKey = UInt64.ofNat (decode mac)) := by
  have hend : data.length + mac.length - macSize = data.length := by
    rw [hmac]
    exact Nat.add_sub_cancel _ _
  unfold verifies receivedFrame
  simp only [List.length_append, hend]
  rw [load_store_of_le _ (by simp), load_store_of_le _ (by simp [hmac, macSize]), List.drop_zero,
    List.take_left, List.drop_left, List.take_of_length_le (by rw [hmac]; rfl)]

/-- A frame that fails the check puts nothing on the bus. -/
theorem outputBuses_of_not_verifies {frame : Frame} (hfails : g.verifies frame = false) :
    outputBuses (g.updateExternal frame).2 = [] := by
  rw [updateExternal_outputs, hfails, filterSystemMessages_eq, if_neg Bool.false_ne_true]
  split_ifs <;> rfl

/-- A packet built by `_send_frame` under the gateway's key, changed on the way
within eight consecutive octets of the authenticated part or within the octets
of the code, fails the check and is not relayed. -/
theorem tampered_packet_fails (loc : Quadrant) (sp dp : Port) (segment : List UInt8) :
    (∀ data, Burst 8 (Packet.header loc sp dp ++ segment) data →
      g.verifies (receivedFrame rest ⟨h, data ++ macOctets (generateMac
        (Packet.header loc sp dp ++ segment) g.shared.sessionKey)⟩) = false ∧
      outputBuses (g.updateExternal (receivedFrame rest ⟨h, data ++ macOctets (generateMac
        (Packet.header loc sp dp ++ segment) g.shared.sessionKey)⟩)).2 = []) ∧
    ∀ mac, Burst 8 (macOctets (generateMac (Packet.header loc sp dp ++ segment)
        g.shared.sessionKey)) mac →
      g.verifies (receivedFrame rest ⟨h, Packet.header loc sp dp ++ segment ++ mac⟩) = false ∧
      outputBuses (g.updateExternal (receivedFrame rest
        ⟨h, Packet.header loc sp dp ++ segment ++ mac⟩)).2 = [] := by
  have hlength : ∀ mac : MsgAuthCode, (macOctets mac).length = 8 := fun mac => length_encode 8 _
  constructor
  · intro data hburst
    have hfails : g.verifies (receivedFrame rest ⟨h, data ++ macOctets (generateMac
        (Packet.header loc sp dp ++ segment) g.shared.sessionKey)⟩) = false := by
      rw [verifies_receivedFrame g rest h data (hlength _), decode_macOctets]
      exact decide_eq_false (generateMac_ne_of_burst hburst _)
    exact ⟨hfails, g.outputBuses_of_not_verifies hfails⟩
  · intro mac hburst
    have hmac : mac.length = 8 := hburst.length_eq.trans (hlength _)
    have hfails : g.verifies (receivedFrame rest
        ⟨h, Packet.header loc sp dp ++ segment ++ mac⟩) = false := by
      rw [verifies_receivedFrame g rest h _ hmac]
      refine decide_eq_false fun heq => hburst.changed ?_
      refine ofNat_decode_inj hmac (hlength _) ?_
      rw [decode_macOctets, heq]
    exact ⟨hfails, g.outputBuses_of_not_verifies hfails⟩

/-- Two octets changed across the end of the first word, and one octet of the code. -/
theorem tampered_packet_fails_across_words :
    (northGateway 2 7).verifies (receivedFrame (fun _ => 0)
        ⟨⟨broadcastAddr, localAddr, 0⟩, Packet.header .north 5 0 ++ [1, 2] ++ ([9, 9] ++ [5]) ++
          macOctets (generateMac (Packet.header .north 5 0 ++ [1, 2, 3, 4, 5]) 7)⟩) = false ∧
      (northGateway 2 7).verifies (receivedFrame (fun _ => 0)
        ⟨⟨broadcastAddr, localAddr, 0⟩, Packet.header .north 5 0 ++ [1, 2, 3, 4, 5] ++
          [0, 0, 0, 0, 0, 0, 0, 0]⟩) = false := by
  have h := tampered_packet_fails (northGateway 2 7) (fun _ => 0) ⟨broadcastAddr, localAddr, 0⟩
    .north 5 0 [1, 2, 3, 4, 5]
  have hdata : Packet.header .north 5 0 ++ [1, 2, 3, 4, 5] =
      Packet.header .north 5 0 ++ [1, 2] ++ ([3, 4] ++ [5]) := by
    rw [List.append_assoc]
    rfl
  refine ⟨(h.1 _ ?_).1, (h.2 _ ?_).1⟩
  · rw [hdata]
    exact burst_append _ _ rfl (by decide) (by decide)
  · have hburst := @burst_append 8 [] []
      (macOctets (generateMac (Packet.header .north 5 0 ++ [1, 2, 3, 4, 5]) 7))
      [0, 0, 0, 0, 0, 0, 0, 0] rfl (le_refl _) (by decide +kernel)
    rwa [List.nil_append, List.nil_append, List.append_nil, List.append_nil] at hburst

end Gateway
end CommunicationAPI
