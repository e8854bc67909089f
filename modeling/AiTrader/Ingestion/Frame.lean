import AiTrader.Ingestion.Parser

/-! # Frames of the feed

`parse_binary_frame` (`src/ingestion/src/parser.rs`): a frame is a count, then a length and the
bytes of each packet, all big-endian.  The loop keeps a position in the frame; a slice or an index
out of range would be a panic, `none` here.  `packetsOf` is what the loop finds, as a list: the
loop never panics and parses exactly these (`parseBinaryFrame_eq`), they are what was encoded
(`packetsOf_encode`), and more bytes only add to them (`packetsIn_append`). -/

namespace AiTrader.Ingestion

open MarketData

/-! ### The loop over the packets -/

/-- `cur.read_u16::<BigEndian>()` of a cursor at a position: the value and the new position. -/
def readU16At (frame : List UInt8) (position : ℕ) : Option (ℕ × ℕ) :=
  match frame.drop position with
  | a :: b :: _ => some (a.toNat * 256 + b.toNat, position + 2)
  | _ => none

/-- `frame[start..stop]`, `none` where it panics. -/
def sliceAt (frame : List UInt8) (start stop : ℕ) : Option (List UInt8) :=
  if start ≤ stop ∧ stop ≤ frame.length then some ((frame.drop start).take (stop - start)) else none

/-- `u32::from_be_bytes`. -/
def u32FromBeBytes (a b c d : UInt8) : UInt32 :=
  UInt32.ofNat (((a.toNat * 256 + b.toNat) * 256 + c.toNat) * 256 + d.toNat)

section
variable (rnd : ℚ → F64) (symbolMap : UInt32 → Option String) (clock : ℕ → Int64)

/-- What the loop does with one packet.  The clock is read once for each parsed packet. -/
def pushPacket (ticks : List Tick) (packet : List UInt8) : Option (List Tick) :=
  if packet.length ≥ 4 then do
    let token := u32FromBeBytes (← packet[0]?) (← packet[1]?) (← packet[2]?) (← packet[3]?)
    let symbol := (symbolMap token).getD "UNKNOWN"
    match parseBinaryTick rnd (clock ticks.length) packet symbol with
    | .ok tick => some (ticks ++ [tick])
    | .error _ => some ticks
  else some ticks

/-- `for _ in 0..num_packets`. -/
def frameLoop (frame : List UInt8) : ℕ → ℕ → List Tick → Option (List Tick)
  | 0, _, ticks => some ticks
  | remaining + 1, position, ticks =>
      match readU16At frame position with
      | none => some ticks
      | some (pktLen, offset) =>
          let stop := offset + pktLen
          if stop > frame.length then some ticks
          else do
            let packet ← sliceAt frame offset stop
            frameLoop frame remaining stop (← pushPacket rnd symbolMap clock ticks packet)

/-- `parse_binary_frame`. -/
def parseBinaryFrame (frame : List UInt8) : Option (List Tick) :=
  if frame.length < 2 then some []
  else
    match readU16At frame 0 with
    | none => some []
    | some (numPackets, position) => frameLoop rnd symbolMap clock frame numPackets position []

end

/-! ### Frames as they are sent -/

/-- A 16-bit number, big-endian. -/
def be16 (n : ℕ) : List UInt8 := [UInt8.ofNat (n / 256), UInt8.ofNat (n % 256)]

/-- A packet after its length. -/
def encodePacket (packet : List UInt8) : List UInt8 := be16 packet.length ++ packet

/-- The frame of a list of packets. -/
def encodeFrame (packets : List (List UInt8)) : List UInt8 :=
  be16 packets.length ++ packets.flatMap encodePacket

/-- The big-endian word at an offset of a packet. -/
def u32At (packet : List UInt8) (offset : ℕ) : UInt32 :=
  u32FromBeBytes (packet.getD offset 0) (packet.getD (offset + 1) 0) (packet.getD (offset + 2) 0)
    (packet.getD (offset + 3) 0)

/-- The same word as a signed number. -/
def i32At (packet : List UInt8) (offset : ℕ) : Int32 := (u32At packet offset).toInt32

/-- The tick of a packet, field by field at the offsets of the parser's header table: the first
depth level of a side holds its price 4 bytes after its quantity. -/
def documentedTick (rnd : ℚ → F64) (symbolMap : UInt32 → Option String) (nowMs : Int64)
    (packet : List UInt8) : Tick :=
  let paise (offset : ℕ) : F64 := rupees rnd (i32At packet offset)
  let quote : Bool := modeQuote ≤ packet.length
  let full : Bool := modeFull ≤ packet.length
  { symbol := (symbolMap (u32At packet 0)).getD "UNKNOWN"
    timestampMs := nowMs
    lastTradedPrice := paise 4
    volume := if quote then i32At packet 16 else 0
    bestBid := if full then paise 68 else .fin 0
    bestAsk := if full then paise 128 else .fin 0
    instrumentToken := u32At packet 0
    «open» := if quote then paise 28 else .fin 0
    high := if quote then paise 32 else .fin 0
    low := if quote then paise 36 else .fin 0
    close := if quote then paise 40 else .fin 0
    openInterest := if full then some (i32At packet 48).toInt64.toUInt64 else none }

/-- The packets the loop finds in the bytes after the count. -/
def packetsOf : ℕ → List UInt8 → List (List UInt8)
  | 0, _ => []
  | remaining + 1, a :: b :: rest =>
      let pktLen := a.toNat * 256 + b.toNat
      if pktLen ≤ rest.length then rest.take pktLen :: packetsOf remaining (rest.drop pktLen)
      else []
  | _ + 1, _ => []

/-- The packets the loop finds in a frame. -/
def packetsIn : List UInt8 → List (List UInt8)
  | a :: b :: rest => packetsOf (a.toNat * 256 + b.toNat) rest
  | _ => []

/-- The packets that give a tick. -/
def readable (packets : List (List UInt8)) : List (List UInt8) :=
  packets.filter fun packet => modeLtp ≤ packet.length

/-- A tick without the reading of the clock. -/
def untimed (tick : Tick) : Tick := { tick with timestampMs := 0 }

/-! ### One packet -/

section Packet
variable {rnd : ℚ → F64} {symbolMap : UInt32 → Option String} {packet : List UInt8}

/-- A read inside a slice of a packet is the read at that offset of the packet. -/
theorem readU32_slice (packet : List UInt8) (offset : ℕ) {width : ℕ} (hwidth : 4 ≤ width)
    (h : offset + 4 ≤ packet.length) :
    readU32 ((packet.drop offset).take width) =
      some (u32At packet offset, (packet.drop (offset + 4)).take (width - 4)) := by
  obtain ⟨rest, rfl⟩ : ∃ rest, width = rest + 4 := ⟨width - 4, by omega⟩
  rw [List.drop_eq_getElem_cons (by omega), List.drop_eq_getElem_cons (i := offset + 1) (by omega),
    List.drop_eq_getElem_cons (i := offset + 2) (by omega),
    List.drop_eq_getElem_cons (i := offset + 3) (by omega)]
  simp only [List.take_succ_cons, readU32, u32At, u32FromBeBytes, Nat.add_sub_cancel,
    List.getD_eq_getElem?_getD]
  simp only [List.getElem?_eq_getElem (show offset < packet.length by omega),
    List.getElem?_eq_getElem (show offset + 1 < packet.length by omega),
    List.getElem?_eq_getElem (show offset + 2 < packet.length by omega),
    List.getElem?_eq_getElem (show offset + 3 < packet.length by omega), Option.getD_some]

theorem readU32_drop {offset : ℕ} (h : offset + 4 ≤ packet.length) :
    readU32 (packet.drop offset) = some (u32At packet offset, packet.drop (offset + 4)) := by
  have hslice := readU32_slice packet offset (show 4 ≤ packet.length by omega) h
  rwa [List.take_of_length_le (by simp), List.take_of_length_le (by simp; omega)] at hslice

theorem readI32_drop {offset : ℕ} (h : offset + 4 ≤ packet.length) :
    readI32 (packet.drop offset) = some (i32At packet offset, packet.drop (offset + 4)) := by
  rw [readI32, readU32_drop h]
  rfl

theorem readI32OrZero_drop {offset : ℕ} (h : offset + 4 ≤ packet.length) :
    readI32OrZero (packet.drop offset) = (i32At packet offset, packet.drop (offset + 4)) := by
  rw [readI32OrZero, readI32_drop h]
  rfl

theorem depthPrice_eq {offset : ℕ} (h : offset + depthEntryLen ≤ packet.length) :
    depthPrice rnd packet offset = rupees rnd (i32At packet (offset + 4)) := by
  rw [depthEntryLen] at h
  have hquantity := readU32_slice packet offset (show 4 ≤ 12 by omega) (by omega)
  have hprice := readU32_slice packet (offset + 4) (show 4 ≤ 8 by omega) (by omega)
  rw [depthPrice, slice?, depthEntryLen, if_pos h]
  simp [readI32OrZero, readI32, hquantity, hprice, i32At]

theorem readOpenInterest_eq (h : oiOffset + 4 ≤ packet.length) :
    readOpenInterest packet = some (i32At packet oiOffset).toInt64.toUInt64 := by
  have hread := readU32_slice packet oiOffset (le_refl 4) h
  simp [readOpenInterest, slice?, if_pos h, readI32, hread, i32At]

theorem readQuote_eq (tick : Tick) (h : modeQuote ≤ packet.length) :
    readQuote rnd tick (packet.drop 8) = .ok { tick with
      volume := i32At packet 16
      «open» := rupees rnd (i32At packet 28)
      high := rupees rnd (i32At packet 32)
      low := rupees rnd (i32At packet 36)
      close := rupees rnd (i32At packet 40) } := by
  rw [modeQuote] at h
  unfold readQuote
  simp only [readI32_drop (show 8 + 4 ≤ packet.length by omega),
    readI32_drop (show 12 + 4 ≤ packet.length by omega),
    readI32_drop (show 16 + 4 ≤ packet.length by omega),
    readI32_drop (show 20 + 4 ≤ packet.length by omega),
    readI32_drop (show 24 + 4 ≤ packet.length by omega),
    readI32OrZero_drop (show 28 + 4 ≤ packet.length by omega),
    readI32OrZero_drop (show 32 + 4 ≤ packet.length by omega),
    readI32OrZero_drop (show 36 + 4 ≤ packet.length by omega),
    readI32OrZero_drop (show 40 + 4 ≤ packet.length by omega), bind, Except.bind]
  rfl

/-- A packet of 8 bytes or more gives the documented tick. -/
theorem parseBinaryTick_eq {nowMs : Int64} (h : modeLtp ≤ packet.length) :
    parseBinaryTick rnd nowMs packet ((symbolMap (u32At packet 0)).getD "UNKNOWN") =
      .ok (documentedTick rnd symbolMap nowMs packet) := by
  have htoken : readU32 packet = some (u32At packet 0, packet.drop 4) :=
    readU32_drop (show 0 + 4 ≤ packet.length by rw [modeLtp] at h; omega)
  have hprice : readI32 (packet.drop 4) = some (i32At packet 4, packet.drop 8) :=
    readI32_drop (by rw [modeLtp] at h; omega)
  unfold parseBinaryTick
  simp only [if_neg (not_lt.mpr h), htoken, hprice]
  by_cases hquote : modeQuote ≤ packet.length
  · by_cases hfull : modeFull ≤ packet.length
    · have hbid : depthPrice rnd packet depthBidOffset = rupees rnd (i32At packet 68) :=
        depthPrice_eq (le_trans (by decide) hfull)
      have hask : depthPrice rnd packet depthAskOffset = rupees rnd (i32At packet 128) :=
        depthPrice_eq (le_trans (by decide) hfull)
      have hoi : readOpenInterest packet = some (i32At packet 48).toInt64.toUInt64 :=
        readOpenInterest_eq (le_trans (by decide) hfull)
      simp [documentedTick, hquote, hfull, readQuote_eq _ hquote, hbid, hask, hoi]
    · simp [documentedTick, hquote, hfull, readQuote_eq _ hquote]
  · have hfull : ¬ modeFull ≤ packet.length := fun hf => hquote (le_trans (by decide) hf)
    simp [documentedTick, hquote, hfull]
    rfl

theorem parseBinaryTick_short (rnd : ℚ → F64) {nowMs : Int64} {symbol : String}
    (h : ¬ modeLtp ≤ packet.length) :
    ∃ e, parseBinaryTick rnd nowMs packet symbol = .error e := by
  refine ⟨s!"Packet too short: {packet.length} bytes (minimum {modeLtp})", ?_⟩
  unfold parseBinaryTick
  rw [if_pos (not_le.mp h)]
  rfl

theorem pushPacket_eq (rnd : ℚ → F64) (symbolMap : UInt32 → Option String) (clock : ℕ → Int64)
    (ticks : List Tick) (packet : List UInt8) :
    pushPacket rnd symbolMap clock ticks packet =
      some (if modeLtp ≤ packet.length then
        ticks ++ [documentedTick rnd symbolMap (clock ticks.length) packet] else ticks) := by
  unfold pushPacket
  by_cases hfour : packet.length ≥ 4
  · have htoken : u32FromBeBytes packet[0] packet[1] packet[2] packet[3] = u32At packet 0 := by
      simp [u32At, List.getD_eq_getElem?_getD,
        List.getElem?_eq_getElem (show 0 < packet.length by omega),
        List.getElem?_eq_getElem (show 1 < packet.length by omega),
        List.getElem?_eq_getElem (show 2 < packet.length by omega),
        List.getElem?_eq_getElem (show 3 < packet.length by omega)]
    rw [if_pos hfour, List.getElem?_eq_getElem (by omega), List.getElem?_eq_getElem (by omega),
      List.getElem?_eq_getElem (by omega), List.getElem?_eq_getElem (by omega)]
    simp only [Option.bind_eq_bind, Option.bind_some, htoken]
    by_cases hread : modeLtp ≤ packet.length
    · rw [parseBinaryTick_eq hread, if_pos hread]
    · obtain ⟨e, he⟩ := parseBinaryTick_short rnd hread
      rw [he, if_neg hread]
  · have hread : ¬ modeLtp ≤ packet.length := by
      rw [modeLtp]
      omega
    rw [if_neg hfour, if_neg hread]

end Packet

/-! ### The loop finds the packets -/

theorem readable_cons_of_le {packet : List UInt8} {packets : List (List UInt8)}
    (h : modeLtp ≤ packet.length) : readable (packet :: packets) = packet :: readable packets := by
  simp [readable, h]

theorem readable_cons_of_lt {packet : List UInt8} {packets : List (List UInt8)}
    (h : ¬ modeLtp ≤ packet.length) : readable (packet :: packets) = readable packets := by
  simp [readable, h]

/-- The loop never panics, and adds the ticks of the packets after its position.  Induction on the
number of packets left. -/
theorem frameLoop_eq (rnd : ℚ → F64) (symbolMap : UInt32 → Option String) (clock : ℕ → Int64)
    (frame : List UInt8) (remaining position : ℕ) (ticks : List Tick) :
    frameLoop rnd symbolMap clock frame remaining position ticks =
      some (ticks ++ (readable (packetsOf remaining (frame.drop position))).mapIdx fun i packet =>
        documentedTick rnd symbolMap (clock (ticks.length + i)) packet) := by
  induction remaining generalizing position ticks with
  | zero => simp [frameLoop, packetsOf, readable]
  | succ remaining ih =>
      rw [frameLoop, readU16At]
      match hdrop : frame.drop position with
      | [] => simp [packetsOf, readable]
      | [_] => simp [packetsOf, readable]
      | a :: b :: rest =>
          have hrest : frame.drop (position + 2) = rest := by
            rw [← List.drop_drop, hdrop]
            rfl
          have hlength : frame.length = position + 2 + rest.length := by
            have := congrArg List.length hdrop
            simp only [List.length_drop, List.length_cons] at this
            omega
          simp only [packetsOf]
          by_cases hfits : a.toNat * 256 + b.toNat ≤ rest.length
          · rw [if_neg (by omega), if_pos hfits, sliceAt, if_pos (by omega), hrest,
              Nat.add_sub_cancel_left]
            simp only [Option.bind_eq_bind, Option.bind_some, pushPacket_eq, ih]
            rw [← List.drop_drop, hrest]
            by_cases hread : modeLtp ≤ (rest.take (a.toNat * 256 + b.toNat)).length
            · rw [if_pos hread, readable_cons_of_le hread, List.mapIdx_cons]
              simp [Nat.add_assoc, Nat.add_comm 1]
            · rw [if_neg hread, readable_cons_of_lt hread]
          · rw [if_pos (by omega), if_neg hfits]
            simp [readable]

/-- A frame gives one tick for each readable packet found in it, in order. -/
theorem parseBinaryFrame_eq (rnd : ℚ → F64) (symbolMap : UInt32 → Option String)
    (clock : ℕ → Int64) (frame : List UInt8) :
    parseBinaryFrame rnd symbolMap clock frame =
      some ((readable (packetsIn frame)).mapIdx fun i packet =>
        documentedTick rnd symbolMap (clock i) packet) := by
  rw [parseBinaryFrame]
  match frame with
  | [] => simp [packetsIn, readable]
  | [_] => simp [packetsIn, readable]
  | a :: b :: rest =>
      rw [if_neg (by simp)]
      simp [readU16At, frameLoop_eq, packetsIn]

/-- The ticks without their times depend on the packets only. -/
theorem untimed_ticks (rnd : ℚ → F64) (symbolMap : UInt32 → Option String) (clock : ℕ → Int64)
    (packets : List (List UInt8)) :
    (packets.mapIdx fun i packet => documentedTick rnd symbolMap (clock i) packet).map untimed =
      packets.map (documentedTick rnd symbolMap 0) := by
  apply List.ext_getElem
  · simp
  · intro i _ _
    simp [untimed, documentedTick]

/-! ### Encoded frames -/

theorem be16_append {n : ℕ} (hn : n ≤ 65535) (rest : List UInt8) :
    ∃ a b : UInt8, be16 n ++ rest = a :: b :: rest ∧ a.toNat * 256 + b.toNat = n := by
  refine ⟨UInt8.ofNat (n / 256), UInt8.ofNat (n % 256), rfl, ?_⟩
  simp only [UInt8.toNat_ofNat']
  omega

/-- The packets of an encoded list, whatever bytes follow. -/
theorem packetsOf_encode (packets : List (List UInt8)) (rest : List UInt8)
    (hlen : ∀ packet ∈ packets, packet.length ≤ 65535) :
    packetsOf packets.length (packets.flatMap encodePacket ++ rest) = packets := by
  induction packets with
  | nil => rfl
  | cons packet packets ih =>
      obtain ⟨a, b, hbytes, hvalue⟩ := be16_append (hlen packet List.mem_cons_self)
        (packet ++ (packets.flatMap encodePacket ++ rest))
      have hframe : (packet :: packets).flatMap encodePacket ++ rest =
          a :: b :: (packet ++ (packets.flatMap encodePacket ++ rest)) := by
        rw [← hbytes, List.flatMap_cons, encodePacket]
        simp only [List.append_assoc]
      rw [List.length_cons, hframe, packetsOf, hvalue, if_pos (by simp),
        List.take_left, List.drop_left,
        ih fun packet' hmem => hlen packet' (List.mem_cons_of_mem packet hmem)]

theorem packetsIn_encode {packets : List (List UInt8)} (hcount : packets.length ≤ 65535)
    (hlen : ∀ packet ∈ packets, packet.length ≤ 65535) :
    packetsIn (encodeFrame packets) = packets := by
  obtain ⟨a, b, hbytes, hvalue⟩ := be16_append hcount (packets.flatMap encodePacket)
  rw [encodeFrame, hbytes, packetsIn, hvalue]
  simpa using packetsOf_encode packets [] hlen

/-! ### Truncated frames -/

/-- More bytes only add packets.  Induction on the number of packets left: up to the end of the
shorter frame both loops read the same bytes. -/
theorem packetsOf_append (remaining : ℕ) (bytes more : List UInt8) :
    packetsOf remaining bytes <+: packetsOf remaining (bytes ++ more) := by
  induction remaining generalizing bytes with
  | zero => exact List.prefix_rfl
  | succ remaining ih =>
      match bytes with
      | [] => exact List.nil_prefix
      | [_] => exact List.nil_prefix
      | a :: b :: rest =>
          simp only [packetsOf, List.cons_append]
          by_cases hfits : a.toNat * 256 + b.toNat ≤ rest.length
          · rw [if_pos hfits, if_pos (by rw [List.length_append]; omega),
              List.take_append_of_le_length hfits, List.drop_append_of_le_length hfits]
            exact List.prefix_cons_inj _ |>.mpr (ih _)
          · rw [if_neg hfits]
            exact List.nil_prefix

theorem packetsIn_append {part whole : List UInt8} (h : part <+: whole) :
    packetsIn part <+: packetsIn whole := by
  obtain ⟨more, rfl⟩ := h
  match part with
  | [] => exact List.nil_prefix
  | [_] => exact List.nil_prefix
  | a :: b :: rest => exact packetsOf_append _ rest more

/-! ### Frames decode, and a cut loses a suffix -/

/-- An encoded list of packets comes back as one documented tick for each.  On arbitrary bytes the
parser returns, and what it finds in a part of a frame starts what it finds in the whole. -/
theorem frame_decoded (rnd : ℚ → F64) (symbolMap : UInt32 → Option String) :
    (∀ (clock : ℕ → Int64) (packets : List (List UInt8)), packets.length ≤ 65535 →
      (∀ packet ∈ packets, 8 ≤ packet.length ∧ packet.length ≤ 65535) →
      parseBinaryFrame rnd symbolMap clock (encodeFrame packets) =
        some (packets.mapIdx fun i packet => documentedTick rnd symbolMap (clock i) packet)) ∧
    (∀ (clock clock' : ℕ → Int64) (part whole : List UInt8), part <+: whole →
      ∃ ticks ticks', parseBinaryFrame rnd symbolMap clock part = some ticks ∧
        parseBinaryFrame rnd symbolMap clock' whole = some ticks' ∧
        ticks.map untimed <+: ticks'.map untimed) ∧
    ∀ (clock : ℕ → Int64) (frame : List UInt8),
      (parseBinaryFrame rnd symbolMap clock frame).isSome := by
  refine ⟨?_, ?_, ?_⟩
  · intro clock packets hcount hlen
    have hreadable : readable packets = packets :=
      List.filter_eq_self.mpr fun packet hmem => by simp [modeLtp, (hlen packet hmem).1]
    rw [parseBinaryFrame_eq, packetsIn_encode hcount fun packet hmem => (hlen packet hmem).2,
      hreadable]
  · intro clock clock' part whole hpart
    refine ⟨_, _, parseBinaryFrame_eq rnd symbolMap clock part,
      parseBinaryFrame_eq rnd symbolMap clock' whole, ?_⟩
    rw [untimed_ticks, untimed_ticks]
    exact ((packetsIn_append hpart).filter _).map _
  · intro clock frame
    rw [parseBinaryFrame_eq]
    rfl

/-- A price packet, a quote and a quote with market depth. -/
def samplePackets : List (List UInt8) :=
  let quote (token : UInt8) : List UInt8 :=
    [0, 0, 1, token, 0, 0, 3, 232] ++ List.replicate 8 0 ++ [0, 0, 0, 100] ++ List.replicate 8 0 ++
      [0, 0, 3, 132, 0, 0, 7, 208, 0, 0, 1, 244, 0, 0, 2, 88]
  [[0, 0, 1, 4, 255, 255, 255, 156], quote 5,
    quote 6 ++ List.replicate 4 0 ++ [0, 0, 0, 9] ++ List.replicate 16 0 ++ [0, 0, 3, 182] ++
      List.replicate 56 0 ++ [0, 0, 4, 76] ++ List.replicate 52 0]

/-- A frame with a packet of each mode, and the same frame cut in its last packet. -/
theorem frame_decoded_modes :
    parseBinaryFrame F64.fin (fun token => if token = 261 then some "TCS" else none)
        (fun i => 5 + i.toInt64) (encodeFrame samplePackets) =
      some [
        { symbol := "UNKNOWN", timestampMs := 5, lastTradedPrice := .fin (-1), volume := 0,
          instrumentToken := 260 },
        { symbol := "TCS", timestampMs := 6, lastTradedPrice := .fin 10, volume := 100,
          instrumentToken := 261, «open» := .fin 9, high := .fin 20, low := .fin 5,
          close := .fin 6 },
        { symbol := "UNKNOWN", timestampMs := 7, lastTradedPrice := .fin 10, volume := 100,
          instrumentToken := 262, «open» := .fin 9, high := .fin 20, low := .fin 5,
          close := .fin 6, bestBid := .fin (19 / 2), bestAsk := .fin 11,
          openInterest := some 9 }] ∧
    ∃ ticks ticks', parseBinaryFrame F64.fin (fun _ => none) (fun _ => 5)
        ((encodeFrame samplePackets).take 240) = some ticks ∧
      parseBinaryFrame F64.fin (fun _ => none) (fun _ => 6) (encodeFrame samplePackets) =
        some ticks' ∧
      ticks.map untimed <+: ticks'.map untimed := by
  refine ⟨?_, (frame_decoded F64.fin fun _ => none).2.1 _ _ _ _ (List.take_prefix _ _)⟩
  rw [(frame_decoded F64.fin _).1 _ _ (by decide) (by decide +kernel)]
  decide +kernel

end AiTrader.Ingestion
