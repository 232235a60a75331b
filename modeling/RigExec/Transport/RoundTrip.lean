/-
# `RigExec.Transport.RoundTrip` — what is encoded is decoded

The codec is taken at its word: within the room it is given, it writes the fixed properties, and
it decodes what it encoded.

    encoded            a frame (`IsFrame`): every field where the header's table has it
    a frame            decoded to its raw bytes, where memory is granted
    accepted           the sizes agree with the buffer as numbers (`SizesAgree`)
    failed             `out` as it was
-/
import RigExec.Transport.Model

namespace RigExec.Transport

open Lib (Bytes bytesAt writeAt readLE leBytes)

/-- The properties of a stream: `lc`, `lp`, `pb` in one byte, then the dictionary's size. -/
def lzmaProps : Bytes := [0x5D, 0, 0, 0x10, 0]

/-- What `Encode` and `Decode` rely on in the codec. -/
structure Codec.Contract (codec : Codec) : Prop where
  /-- no more is written than there is room for -/
  bounded : ∀ heap c raw room,
    ((codec.encode encProps raw room).run heap c).1.result = szOk →
      ((codec.encode encProps raw room).run heap c).1.dest.length ≤ room
  /-- the settings are written as they were given -/
  props : ∀ heap c raw room,
    ((codec.encode encProps raw room).run heap c).1.result = szOk →
      ((codec.encode encProps raw room).run heap c).1.propsEncoded = lzmaProps
  /-- its own output is decoded, where memory is granted -/
  inverse : ∀ heap c raw room,
    ((codec.encode encProps raw room).run heap c).1.result = szOk →
      ∀ heap' c',
        (lzmaDecode codec raw.length ((codec.encode encProps raw room).run heap c).1.dest
          lzmaProps).Granted heap' c' →
        ((lzmaDecode codec raw.length ((codec.encode encProps raw room).run heap c).1.dest
          lzmaProps).run heap' c').1 =
          ⟨szOk, raw, ((codec.encode encProps raw room).run heap c).1.dest.length,
            .finishedWithMark⟩

/-- The sizes of a header agree with its buffer, as numbers without bound. -/
def SizesAgree (p : Bytes) : Prop :=
  0 < get p 16 8 ∧ get p 16 8 < maxRaw ∧ 0 < get p 24 8 ∧ get p 24 8 < maxRaw ∧
    headerSize + get p 24 8 = p.length

/-- The bytes of a frame. -/
structure IsFrame (frame raw payload : Bytes) : Prop where
  size : frame.length = headerSize + payload.length
  magic : bytesAt frame 0 8 = magic
  version : get frame 8 4 = 1
  header : get frame 12 4 = headerSize
  rawSize : get frame 16 8 = raw.length
  packed : get frame 24 8 = payload.length
  props : bytesAt frame 32 5 = lzmaProps
  reserved : bytesAt frame 37 3 = [0, 0, 0]
  rawCrc : get frame 40 4 = (crc raw).toNat
  payloadCrc : get frame 44 4 = (crc payload).toNat
  payload : bytesAt frame headerSize payload.length = payload

/-- `Decode` of `p` is granted the memory it asks for. -/
def Served (codec : Codec) (heap : Heap) (p : Bytes) (faults : Faults) : Prop :=
  outputBuffer heap (Context.attempt ⟨{}, faults⟩) (get p 16 8) ≠ none ∧
    (lzmaDecode codec (get p 16 8) (bytesAt p headerSize (get p 24 8)) (bytesAt p 32 5)).Granted
      heap (Context.attempt ⟨{}, faults⟩)

theorem sizeSub_of_le {a b : Nat} (h : b ≤ a) (small : a < 2 ^ 64) : sizeSub a b = a - b := by
  rw [sizeSub, show a + 2 ^ 64 - b = a - b + 2 ^ 64 by omega, Nat.add_mod_right,
    Nat.mod_eq_of_lt (by omega)]

/-! ## The writes -/

section Writes

variable {candidate raw dest : Bytes}

/-- The writes of `fillFrame` but the last: the codec's, then the header's. -/
def frameWrites (raw dest : Bytes) : List (Nat × Bytes) :=
  [(headerSize, dest), (32, lzmaProps), (0, magic), (8, leBytes 1 4), (12, leBytes headerSize 4),
    (16, leBytes raw.length 8), (24, leBytes dest.length 8), (37, [0, 0, 0]),
    (40, leBytes (crc raw).toNat 4)]

theorem frameWrites_fit (room : headerSize + dest.length ≤ candidate.length) (crc : UInt32) :
    ∀ w ∈ frameWrites raw dest ++ [(44, leBytes crc.toNat 4)],
      w.1 + w.2.length ≤ candidate.length := by
  simp only [headerSize] at room
  simp only [frameWrites, List.cons_append, List.nil_append, List.forall_mem_cons, headerSize,
    Lib.length_leBytes, lzmaProps, magic, List.length_cons, List.length_nil]
  refine ⟨by omega, by omega, by omega, by omega, by omega, by omega, by omega, by omega,
    by omega, by omega, fun w hw => absurd hw List.not_mem_nil⟩

theorem frameWrites_apart (crc : UInt32) :
    (frameWrites raw dest ++ [(44, leBytes crc.toNat 4)]).Pairwise Lib.Apart := by
  simp only [frameWrites, List.cons_append, List.nil_append, List.pairwise_cons,
    List.forall_mem_cons, Lib.Apart, headerSize, Lib.length_leBytes, lzmaProps, magic,
    List.length_cons, List.length_nil]
  simp

theorem payload_frameWrites (room : headerSize + dest.length ≤ candidate.length) :
    bytesAt (Lib.writeAll candidate (frameWrites raw dest)) headerSize dest.length = dest := by
  have fits : ∀ w ∈ frameWrites raw dest ++ [(44, leBytes (0 : UInt32).toNat 4)],
      w.1 + w.2.length ≤ candidate.length := frameWrites_fit room 0
  have apart : (frameWrites raw dest ++ [(44, leBytes (0 : UInt32).toNat 4)]).Pairwise Lib.Apart :=
    frameWrites_apart 0
  exact Lib.bytesAt_writeAll (w := (headerSize, dest))
    (fun w hw => fits w (List.mem_append_left _ hw)) (List.pairwise_append.mp apart).1
    List.mem_cons_self

theorem fillFrame_eq (room : headerSize + dest.length ≤ candidate.length) (result : SRes) :
    fillFrame candidate raw ⟨result, dest, lzmaProps⟩ =
      Lib.writeAll candidate
        (frameWrites raw dest ++ [(44, leBytes (crc dest).toNat 4)]) := by
  have last : fillFrame candidate raw ⟨result, dest, lzmaProps⟩ =
      put (Lib.writeAll candidate (frameWrites raw dest)) 44
        (crc (bytesAt (Lib.writeAll candidate (frameWrites raw dest)) headerSize
          dest.length)).toNat 4 := rfl
  rw [last, payload_frameWrites room, Lib.writeAll, Lib.writeAll, List.foldl_append]
  rfl

theorem get_eq {p : Bytes} {off v n : Nat} (field : bytesAt p off n = leBytes v n)
    (small : v < 2 ^ (8 * n)) : get p off n = v := by
  rw [get, Lib.readLE_drop, field, Lib.readLE_leBytes, Nat.mod_eq_of_lt small]

theorem field_published (room : headerSize + dest.length ≤ candidate.length) {w : Nat × Bytes}
    (mem : w ∈ frameWrites raw dest ++ [(44, leBytes (crc dest).toNat 4)])
    (inside : w.1 + w.2.length ≤ headerSize + dest.length) (result : SRes) :
    bytesAt ((fillFrame candidate raw ⟨result, dest, lzmaProps⟩).take (headerSize + dest.length))
      w.1 w.2.length = w.2 := by
  rw [fillFrame_eq room, Lib.bytesAt_take inside]
  exact Lib.bytesAt_writeAll (frameWrites_fit room (crc dest)) (frameWrites_apart (crc dest)) mem

theorem number_published (room : headerSize + dest.length ≤ candidate.length) {off v n : Nat}
    (mem : (off, leBytes v n) ∈ frameWrites raw dest ++ [(44, leBytes (crc dest).toNat 4)])
    (inside : off + n ≤ headerSize) (small : v < 2 ^ (8 * n)) (result : SRes) :
    get ((fillFrame candidate raw ⟨result, dest, lzmaProps⟩).take (headerSize + dest.length))
      off n = v := by
  have written := field_published room mem (by rw [Lib.length_leBytes]; omega) result
  rw [Lib.length_leBytes] at written
  exact get_eq written small

/-- What `Encode` publishes is a frame. -/
theorem isFrame_fillFrame (room : headerSize + dest.length ≤ candidate.length)
    (small : raw.length < 2 ^ 64) (smallDest : dest.length < 2 ^ 64) (result : SRes) :
    IsFrame ((fillFrame candidate raw ⟨result, dest, lzmaProps⟩).take (headerSize + dest.length))
      raw dest := by
  have header : ∀ {n : Nat}, n ≤ headerSize → n ≤ headerSize + dest.length := by
    intro n hn
    omega
  refine
    { size := ?_
      magic := field_published (w := (0, magic)) room (by simp [frameWrites]) (header (by decide))
        result
      version := number_published room (by simp [frameWrites]) (by decide) (by decide) result
      header := number_published room (by simp [frameWrites]) (by decide) (by decide) result
      rawSize := number_published room (by simp [frameWrites]) (by decide) small result
      packed := number_published room (by simp [frameWrites]) (by decide) smallDest result
      props := field_published (w := (32, lzmaProps)) room (by simp [frameWrites])
        (header (by decide)) result
      reserved := field_published (w := (37, [0, 0, 0])) room (by simp [frameWrites])
        (header (by decide)) result
      rawCrc := number_published room (by simp [frameWrites]) (by decide) (crc raw).toNat_lt result
      payloadCrc := number_published room (by simp [frameWrites]) (by decide) (crc dest).toNat_lt
        result
      payload := field_published (w := (headerSize, dest)) room (by simp [frameWrites])
        (Nat.le_refl _) result }
  rw [fillFrame_eq room, List.length_take, Lib.length_writeAll (frameWrites_fit room (crc dest))]
  omega

end Writes

/-! ## What a call leaves -/

section Calls

variable (codec : Codec) (heap : Heap) (view : Option View) (out : Option Bytes)
  (faults : Faults)

/-- `Encode` fails, asks for the raw bytes, or publishes what the codec wrote. -/
theorem encode_cases :
    (∃ message c, encode codec heap view out faults = fail out message c) ∨
    (∃ stats, encode codec heap view out faults = ⟨true, some [], none, stats⟩) ∨
    ∃ c candidate stats, ∃ encoded,
      encoded = ((codec.encode encProps (viewed view)
        ((viewed view).length - headerSize - 1)).run heap c).1 ∧
      encoded.result = szOk ∧ (viewed view).length < maxRaw ∧
      headerSize + 1 < (viewed view).length ∧
      candidate.length = (viewed view).length - 1 ∧
      encode codec heap view out faults =
        ⟨true, some ((fillFrame candidate (viewed view) encoded).take
          (headerSize + encoded.dest.length)), none, stats⟩ := by
  unfold encode
  dsimp only
  split
  · exact Or.inl ⟨_, _, rfl⟩
  · rename_i valid
    push Not at valid
    split
    · exact Or.inr (Or.inl ⟨_, rfl⟩)
    · rename_i large
      split
      · exact Or.inl ⟨_, _, rfl⟩
      · rename_i candidate granted
        have room : candidate.length = (viewed view).length - 1 := by
          rw [outputBuffer] at granted
          split at granted
          · exact heap.output_length _ _ _ granted
          · cases granted
        split
        · exact Or.inr (Or.inl ⟨_, rfl⟩)
        · split
          · exact Or.inl ⟨_, _, rfl⟩
          · rename_i written
            push Not at written
            split
            · exact Or.inl ⟨_, _, rfl⟩
            · split
              · exact Or.inl ⟨_, _, rfl⟩
              · exact Or.inr (Or.inr ⟨_, candidate, _, _, rfl, written.1, valid.2.2.2,
                  Nat.lt_of_not_le large, room, rfl⟩)

/-- `Decode` fails, or the sizes of the header agree with the buffer and the codec gave the
bytes. -/
theorem decode_cases :
    (∃ message c, decode codec heap view out faults = fail out message c) ∨
    (SizesAgree (viewed view) ∧
      ∃ raw stats, decode codec heap view out faults = ⟨true, some raw, none, stats⟩) := by
  have fits : (viewed view).length < 2 ^ 64 := by
    cases view with
    | none => exact Nat.two_pow_pos 64
    | some v => exact v.fits
  unfold decode
  dsimp only
  split
  · exact Or.inl ⟨_, _, rfl⟩
  · rename_i header
    split
    · exact Or.inl ⟨_, _, rfl⟩
    · rename_i lengths
      have agree : SizesAgree (viewed view) := by
        have long : headerSize ≤ (viewed view).length := by
          push Not at header
          exact header.2.2.1
        push Not at lengths
        obtain ⟨raw, rawMax, packed, packedMax, rest⟩ := lengths
        rw [sizeSub_of_le long fits] at rest
        exact ⟨Nat.pos_of_ne_zero raw, rawMax, Nat.pos_of_ne_zero packed, packedMax, by omega⟩
      repeat' split
      all_goals first
        | exact Or.inl ⟨_, _, rfl⟩
        | exact Or.inr ⟨agree, _, _, rfl⟩

end Calls

/-! ## Decoding a frame -/

section Frames

variable {frame raw payload : Bytes}

theorem IsFrame.long (h : IsFrame frame raw payload) : headerSize ≤ frame.length := by
  rw [h.size]
  omega

/-- The header's other bytes, as `Decode` reads them. -/
theorem IsFrame.props_read (h : IsFrame frame raw payload) :
    frame.getD 32 0 = 0x5D ∧ get frame 33 4 = 1 <<< 20 ∧ frame.getD 37 0 = 0 ∧
      frame.getD 38 0 = 0 ∧ frame.getD 39 0 = 0 := by
  have dictionary : bytesAt frame 33 4 = bytesAt lzmaProps 1 4 := by
    rw [← h.props, Lib.bytesAt_bytesAt (by decide)]
  have reserved : ∀ i < 3, frame.getD (37 + i) 0 = ([0, 0, 0] : Bytes).getD i 0 := by
    intro i hi
    rw [← h.reserved, Lib.getD_bytesAt hi]
  refine ⟨?_, ?_, reserved 0 (by decide), reserved 1 (by decide), reserved 2 (by decide)⟩
  · rw [show 32 = 32 + 0 from rfl, ← Lib.getD_bytesAt (n := 5) (by decide), h.props]
    rfl
  · rw [get, Lib.readLE_drop, dictionary]
    rfl

theorem decode_of_isFrame (codec : Codec) {heap : Heap} {view : View} {faults : Faults}
    (h : IsFrame view.bytes raw payload) (nonempty : raw ≠ []) (small : raw.length < maxRaw)
    (packed : payload ≠ []) (smallPacked : payload.length < maxRaw)
    (buffer : outputBuffer heap (Context.attempt ⟨{}, faults⟩) raw.length ≠ none)
    (decoded : ((lzmaDecode codec raw.length payload lzmaProps).run heap
      (Context.attempt ⟨{}, faults⟩)).1 = ⟨szOk, raw, payload.length, .finishedWithMark⟩)
    (old : Bytes) :
    ∃ stats, decode codec heap (some view) (some old) faults = ⟨true, some raw, none, stats⟩ := by
  have envelope : isEnvelope (some view) = true := by
    have eight : 8 ≤ view.bytes.length := le_trans (by decide) h.long
    simp [isEnvelope, viewed, h.magic, eight]
  have rawPos : raw.length ≠ 0 := fun zero => nonempty (List.length_eq_zero_iff.mp zero)
  have packedPos : payload.length ≠ 0 := fun zero => packed (List.length_eq_zero_iff.mp zero)
  have lengths : sizeSub view.bytes.length headerSize = payload.length := by
    rw [sizeSub_of_le h.long view.fits, h.size]
    omega
  obtain ⟨first, dictionary, zero, one, two⟩ := h.props_read
  unfold decode
  dsimp only [viewed]
  simp only [h.rawSize, h.packed, h.version, h.header, h.rawCrc, h.payloadCrc, h.payload, h.props,
    lengths, decoded, first, dictionary, zero, one, two]
  rw [if_neg (by simp [envelope, h.long]), if_neg (by simp [rawPos, packedPos, small, smallPacked]),
    if_neg (by simp), if_neg (by simp), if_neg buffer, if_neg (by simp)]
  exact ⟨_, rfl⟩

end Frames

/-! ## Round trip -/

theorem Codec.Contract.dest_ne_nil {codec : Codec} (contract : codec.Contract) {heap : Heap}
    {c : Context} {raw : Bytes} {room : Nat}
    (ok : ((codec.encode encProps raw room).run heap c).1.result = szOk) :
    ((codec.encode encProps raw room).run heap c).1.dest ≠ [] := by
  intro empty
  have inverse := contract.inverse heap c raw room ok heap c
  -- a source this short is refused before anything is allocated
  have short : lzmaDecode codec raw.length [] lzmaProps =
      .done ⟨szErrorInputEof, [], 0, .notSpecified⟩ := rfl
  rw [empty, short] at inverse
  have result : szErrorInputEof = szOk := congrArg Decoded.result (inverse trivial)
  exact absurd result (by decide)

/-- **Transport.**  With a codec that decodes its own output: a frame that `Encode` produces is
shorter than the raw bytes, and wherever memory is granted `Decode` returns them from it; a
header whose sizes do not agree with the buffer is rejected; and a call that fails leaves its
output as it was. -/
theorem transport_roundTrip (codec : Codec) (contract : codec.Contract) :
    (∀ heap (raw : View) old faults frame,
      (encode codec heap (some raw) (some old) faults).ok = true →
      (encode codec heap (some raw) (some old) faults).out = some frame → frame ≠ [] →
      frame.length < raw.bytes.length ∧
      ∀ heap' (view : View) old' faults', view.bytes = frame →
        Served codec heap' frame faults' →
        (decode codec heap' (some view) (some old') faults').ok = true ∧
        (decode codec heap' (some view) (some old') faults').out = some raw.bytes) ∧
    (∀ heap view out faults, ¬ SizesAgree (viewed view) →
      (decode codec heap view out faults).ok = false) ∧
    (∀ heap view out faults, (encode codec heap view out faults).ok = false →
      (encode codec heap view out faults).out = out) ∧
    (∀ heap view out faults, (decode codec heap view out faults).ok = false →
      (decode codec heap view out faults).out = out) := by
  refine ⟨?_, ?_, ?_, ?_⟩
  · intro heap raw old faults frame ok produced nonempty
    rcases encode_cases codec heap (some raw) (some old) faults with
      ⟨message, c, failed⟩ | ⟨stats, fallback⟩ |
      ⟨c, candidate, stats, encoded, run, written, small, large, room, published⟩
    · rw [failed] at ok
      cases ok
    · rw [fallback] at produced
      exact absurd (Option.some.inj produced).symm nonempty
    · rw [published] at produced
      have frameEq := (Option.some.inj produced).symm
      dsimp only [viewed] at run small large room frameEq
      have bounded := contract.bounded heap c raw.bytes (raw.bytes.length - headerSize - 1)
        (run ▸ written)
      have props := contract.props heap c raw.bytes (raw.bytes.length - headerSize - 1)
        (run ▸ written)
      have inverse := contract.inverse heap c raw.bytes (raw.bytes.length - headerSize - 1)
        (run ▸ written)
      have payload := contract.dest_ne_nil (run ▸ written)
      rw [← run] at bounded props inverse payload
      simp only [headerSize] at large
      have isFrame : IsFrame frame raw.bytes encoded.dest := by
        obtain ⟨result, dest, propsEncoded⟩ := encoded
        dsimp only at props bounded frameEq
        rw [props] at frameEq
        rw [frameEq]
        have below := raw.fits
        simp only [headerSize] at bounded
        exact isFrame_fillFrame (by simp only [headerSize]; omega) below (by omega) result
      have size := isFrame.size
      simp only [headerSize] at size bounded
      refine ⟨by omega, ?_⟩
      intro heap' view old' faults' viewEq served
      rw [Served, isFrame.rawSize, isFrame.packed, isFrame.payload, isFrame.props] at served
      obtain ⟨stats', decoded⟩ := decode_of_isFrame codec
        (show IsFrame view.bytes raw.bytes encoded.dest from viewEq ▸ isFrame)
        (by intro empty; rw [empty] at large; exact absurd large (by decide)) small payload
        (by omega) served.1 (inverse heap' _ served.2) old'
      rw [decoded]
      exact ⟨rfl, rfl⟩
  · intro heap view out faults disagree
    rcases decode_cases codec heap view out faults with ⟨message, c, failed⟩ | ⟨agree, _⟩
    · rw [failed]
      rfl
    · exact absurd agree disagree
  · intro heap view out faults failed
    rcases encode_cases codec heap view out faults with
      ⟨message, c, eq⟩ | ⟨stats, eq⟩ | ⟨_, _, stats, _, _, _, _, _, _, eq⟩
    · rw [eq]
      rfl
    · rw [eq] at failed
      cases failed
    · rw [eq] at failed
      cases failed
  · intro heap view out faults failed
    rcases decode_cases codec heap view out faults with ⟨message, c, eq⟩ | ⟨_, raw, stats, eq⟩
    · rw [eq]
      rfl
    · rw [eq] at failed
      cases failed

/-- A hundred zeros. -/
def zeros : View where
  bytes := List.replicate 100 0
  fits := by decide

/-- A hundred zeros, compressed: a literal, a match of the rest, the end mark. -/
def zerosPacked : Bytes := [0, 0, 110, 161, 77, 115, 223, 255, 255, 128, 2, 0, 0]

/-- The codec on a hundred zeros; it reports no room for anything else. -/
def zerosCodec : Codec where
  encode _ raw room := .done <|
    if raw = zeros.bytes ∧ zerosPacked.length ≤ room then ⟨szOk, zerosPacked, lzmaProps⟩
    else ⟨szErrorOutputEof, [], []⟩
  decodeToDic room source _ := .done <|
    if source = zerosPacked ∧ room = zeros.bytes.length then
      ⟨szOk, zeros.bytes, zerosPacked.length, .finishedWithMark⟩
    else ⟨1, [], 0, .notSpecified⟩

/-- Memory without end. -/
def ampleHeap : Heap where
  sdk _ _ := true
  output _ n := some (List.replicate n 0)
  vector _ := true
  output_length k n b h := by rw [← Option.some.inj h, List.length_replicate]

theorem zerosCodec_ok {heap : Heap} {c : Context} {raw : Bytes} {room : Nat}
    (ok : ((zerosCodec.encode encProps raw room).run heap c).1.result = szOk) :
    raw = zeros.bytes ∧ zerosPacked.length ≤ room ∧
      ((zerosCodec.encode encProps raw room).run heap c).1 = ⟨szOk, zerosPacked, lzmaProps⟩ := by
  simp only [zerosCodec, Sdk.run] at ok ⊢
  split at ok
  · rename_i h
    rw [if_pos h]
    exact ⟨h.1, h.2, rfl⟩
  · exact absurd ok (by decide)

theorem zerosCodec_contract : zerosCodec.Contract where
  bounded heap c raw room ok := by
    rw [(zerosCodec_ok ok).2.2]
    exact (zerosCodec_ok ok).2.1
  props heap c raw room ok := by
    rw [(zerosCodec_ok ok).2.2]
  inverse heap c raw room ok heap' c' _ := by
    rw [(zerosCodec_ok ok).2.2, (zerosCodec_ok ok).1]
    rfl

theorem transport_roundTrip_zeros :
    ∃ view : View,
      (encode zerosCodec ampleHeap (some zeros) (some []) {}).out = some view.bytes ∧
      view.bytes.length = 61 ∧ view.bytes.length < zeros.bytes.length ∧
      (decode zerosCodec ampleHeap (some view) (some []) {}).out = some zeros.bytes := by
  have ok : (encode zerosCodec ampleHeap (some zeros) (some []) {}).ok = true := by
    decide +kernel
  have produced : ∃ frame, (encode zerosCodec ampleHeap (some zeros) (some []) {}).out =
      some frame ∧ frame.length = 61 := by
    refine ⟨((encode zerosCodec ampleHeap (some zeros) (some []) {}).out).getD [], ?_, ?_⟩
    · decide +kernel
    · decide +kernel
  obtain ⟨frame, produced, length⟩ := produced
  have nonempty : frame ≠ [] := by
    intro empty
    rw [empty] at length
    cases length
  have whole := (transport_roundTrip zerosCodec zerosCodec_contract).1 ampleHeap zeros [] {} frame
    ok produced nonempty
  refine ⟨⟨frame, by rw [length]; decide⟩, produced, length, whole.1, ?_⟩
  refine (whole.2 ampleHeap ⟨frame, by rw [length]; decide⟩ [] {} rfl ⟨?_, ?_⟩).2
  · exact Option.some_ne_none _
  · rw [lzmaDecode]
    split
    · trivial
    · trivial

end RigExec.Transport
