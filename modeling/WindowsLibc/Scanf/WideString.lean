import WindowsLibc.Scanf.Accounting

/-!
# Wide strings (`%ls` and `%lls`)

The input is decoded from UTF-8 character by character and stored in UTF-16 or UTF-32. What the decoder
is told of the bytes that are left is their number in 8 bits.

* `stringLoop_run` is the loop over the characters up to white space: it comes to the end of them
  exactly if all of them are `Decodable`.
* `storesRun_iff_decodable` is the directive as a whole, against what it should do (`StoresRun`).
-/

namespace WindowsLibc.Scanf

open WindowsLibc.Printf WindowsLibc.Convert

/-! ## What is asked for -/

/-- Characters in UTF-8. -/
def utf8 (cs : List Char) : List UInt8 := cs.flatMap String.utf8EncodeChar

/-- White space. -/
def isSpaceChar (c : Char) : Bool := c.toNat = 32 ∨ (9 ≤ c.toNat ∧ c.toNat ≤ 13)

/-- The maximal run of characters that are not white space. -/
def run (cs : List Char) : List Char := cs.takeWhile fun c => !isSpaceChar c

/-- What is left behind it. -/
def afterRun (cs : List Char) : List Char := cs.dropWhile fun c => !isSpaceChar c

/-- A character in UTF-16. -/
def utf16Units (c : Char) : List UInt16 :=
  if c.toNat < 0x10000 then [UInt16.ofNat c.toNat]
  else [UInt16.ofNat (0xD800 + (c.toNat - 0x10000) / 1024),
    UInt16.ofNat (0xDC00 + (c.toNat - 0x10000) % 1024)]

/-- A character in memory: in UTF-32 for `ll`, in UTF-16 for `l`. -/
def wideBytes (modifier : Modifier) (c : Char) : List UInt8 :=
  if modifier = .longLong then
    unitBytes (UInt16.ofNat (c.toNat % 65536)) ++ unitBytes (UInt16.ofNat (c.toNat / 65536))
  else (utf16Units c).flatMap unitBytes

/-- A directive `%ls` or `%lls` that stores at `address`. -/
structure WideDirective (config : ScanConfig) (address : UInt64) : Prop where
  type : config.type = .string
  modifier : config.modifier = .long ∨ config.modifier = .longLong
  stores : config.flags.suppressInput = false
  plain : config.flags.allocateString = false
  width : config.width = 0
  data : config.data = some address

/-- Every character of a run can be decoded: the number of bytes that are left, in 8 bits, is enough
for it. -/
def Decodable (rest : List Char) : List Char → Prop
  | [] => True
  | c :: cs => c.utf8Size ≤ (utf8 (c :: cs ++ rest)).length % 256 ∧ Decodable rest cs

instance (rest : List Char) : (cs : List Char) → Decidable (Decodable rest cs)
  | [] => isTrue trivial
  | _ :: cs =>
    have := instDecidableDecodable rest cs
    inferInstanceAs (Decidable (_ ∧ _))

theorem utf16Encode_val (c : Char) : utf16Encode c.val = (utf16Units c).flatMap unitBytes := by
  have hvalid : c.val.isValidChar := c.valid
  rw [UInt32.isValidChar, Nat.isValidChar] at hvalid
  have hmax : ¬ c.val > 0x10FFFF := by
    simp only [gt_iff_lt, UInt32.lt_iff_toNat_lt, UInt32.reduceToNat]
    omega
  have hnat : c.toNat = c.val.toNat := rfl
  rw [utf16Encode, if_neg hmax, utf16Units, hnat]
  split
  · next hsmall =>
    have hsmall' : c.val.toNat ≤ 0xFFFF := UInt32.le_iff_toNat_le.mp hsmall
    have hunit : c.val.toUInt16 = UInt16.ofNat c.val.toNat := by
      rw [← UInt16.toNat_inj, UInt32.toNat_toUInt16, UInt16.toNat_ofNat']
    rw [if_pos (by omega), hunit]
    rfl
  · next hlarge =>
    have hlarge' : 0xFFFF < c.val.toNat := by
      simpa only [UInt32.not_le, UInt32.lt_iff_toNat_lt, UInt32.reduceToNat] using hlarge
    obtain ⟨hhigh, hlow⟩ := surrogates hlarge' (by omega)
    rw [if_neg (by omega), ← hhigh, ← hlow, UInt16.ofNat_toNat, UInt16.ofNat_toNat]
    rfl

theorem utf32_val (c : Char) : unitBytes c.val.toUInt16 ++ unitBytes (c.val >>> 16).toUInt16 =
    unitBytes (UInt16.ofNat (c.toNat % 65536)) ++ unitBytes (UInt16.ofNat (c.toNat / 65536)) := by
  have hnat : c.toNat = c.val.toNat := rfl
  have hlow : c.val.toUInt16 = UInt16.ofNat (c.toNat % 65536) := by
    rw [← UInt16.toNat_inj, UInt32.toNat_toUInt16, UInt16.toNat_ofNat', hnat, Nat.mod_mod]
  have hhigh : (c.val >>> 16).toUInt16 = UInt16.ofNat (c.toNat / 65536) := by
    rw [← UInt16.toNat_inj, UInt32.toNat_toUInt16, UInt16.toNat_ofNat', UInt32.toNat_shiftRight, hnat,
      Nat.shiftRight_eq_div_pow]
    rfl
  rw [hlow, hhigh]


/-! ## The caller's memory -/

/-- The caller's memory as a buffer, with what has been written. -/
def filled (bytes : List UInt8) : Buffer := ⟨bytes, bytes.length, 2 ^ 64 - 1, none, false⟩

theorem store_filled (xs ys : List UInt8) : (filled xs).store ys = filled (xs ++ ys) := by
  rw [Buffer.store, filled, WindowsLibc.Lib.overwrite_length]
  simp only [filled, List.length_append]

theorem writen_filled {xs ys : List UInt8} (h : xs.length + ys.length < 2 ^ 64) :
    (filled xs).writen ys = filled (xs ++ ys) := by
  have hroom : ¬ (filled xs).pos + ys.length > (filled xs).size := by
    simp only [filled]
    omega
  rw [Buffer.writen, if_neg (by simp [filled]), if_neg hroom, store_filled]

theorem storeAt_filled {xs ys : List UInt8} (h : xs.length + ys.length < 2 ^ 64) :
    storeAt (filled xs) ys = some (filled (xs ++ ys)) := by
  have hroom : (filled xs).pos + ys.length ≤ (filled xs).size := by
    simp only [filled]
    omega
  rw [storeAt, if_pos hroom, store_filled]

theorem writebytes_filled {xs ys : List UInt8} (h : xs.length + ys.length < 2 ^ 64) :
    ys.foldl Buffer.writebyte (filled xs) = filled (xs ++ ys) := by
  induction ys generalizing xs with
  | nil => rw [List.foldl_nil, List.append_nil]
  | cons y ys ih =>
    rw [List.length_cons] at h
    rw [List.foldl_cons, Buffer.writebyte, writen_filled (by simp; omega), ih (by simp; omega),
      List.append_assoc]
    rfl

/-! ## Characters in the input -/

theorem utf8_cons (c : Char) (cs : List Char) :
    utf8 (c :: cs) = String.utf8EncodeChar c ++ utf8 cs := List.flatMap_cons

theorem utf8_append (cs ds : List Char) : utf8 (cs ++ ds) = utf8 cs ++ utf8 ds :=
  List.flatMap_append

theorem length_le_utf8 (cs : List Char) : cs.length ≤ (utf8 cs).length := by
  induction cs with
  | nil => exact Nat.zero_le _
  | cons c cs ih =>
    have := c.utf8Size_pos
    rw [utf8_cons, List.length_append, String.length_utf8EncodeChar, List.length_cons]
    omega

/-- The first byte of a character is white space exactly if the character is, and is not zero unless
the character is. -/
theorem head_utf8EncodeChar (c : Char) (hnul : c.toNat ≠ 0) (rest : List UInt8) :
    (String.utf8EncodeChar c ++ rest).headD 0 ≠ 0 ∧
      isSpace ((String.utf8EncodeChar c ++ rest).headD 0) = isSpaceChar c := by
  have hbyte {n : Nat} (hn : n < 256) : (UInt8.ofNat n).toNat = n := UInt8.toNat_ofNat_of_lt' hn
  have hhead : ∃ n < 256, (String.utf8EncodeChar c ++ rest).headD 0 = UInt8.ofNat n ∧
      (n = c.toNat ∨ 128 ≤ n ∧ 128 ≤ c.toNat) := by
    have hnat : c.toNat = c.val.toNat := rfl
    rw [String.utf8EncodeChar, hnat]
    split
    · exact ⟨_, by omega, rfl, .inl rfl⟩
    · split
      · exact ⟨_, by omega, rfl, .inr (by omega)⟩
      · split
        · exact ⟨_, by omega, rfl, .inr (by omega)⟩
        · exact ⟨_, by omega, rfl, .inr (by omega)⟩
  obtain ⟨n, hn, hhead, hcases⟩ := hhead
  rw [hhead]
  constructor
  · rw [Ne, ← UInt8.toNat_inj, hbyte hn]
    show n ≠ 0
    omega
  · simp only [isSpace, isSpaceChar, ← UInt8.toNat_inj, UInt8.le_iff_toNat_le, hbyte hn,
      UInt8.reduceToNat, decide_eq_decide]
    omega

variable {b : Buffer}

theorem toNat_pending {text : List UInt8} (h : Reads b text) (hsize : b.size < 2 ^ 64) :
    (UInt8.ofNat b.pending).toNat = text.length % 256 := by
  rw [h.pending hsize, UInt8.toNat_ofNat']

/-- With enough bytes left, in 8 bits, the decoder sees the character in front. -/
theorem decodeHere_char {c : Char} {cs : List Char} (h : Reads b (utf8 (c :: cs)))
    (hsize : b.size < 2 ^ 64) (henough : c.utf8Size ≤ (utf8 (c :: cs)).length % 256) :
    decodeHere b = (c.utf8Size, c.val) := by
  rw [decodeHere]
  apply utf8Decode_char
  rw [toNat_pending h hsize, List.prefix_take_iff, String.length_utf8EncodeChar]
  refine ⟨?_, henough⟩
  have hfront := h.front
  rw [utf8_cons] at hfront
  exact (List.prefix_append _ _).trans hfront

/-- Otherwise it sees nothing. -/
theorem decodeHere_short {c : Char} {cs : List Char} (h : Reads b (utf8 (c :: cs)))
    (hsize : b.size < 2 ^ 64) (hshort : ¬ c.utf8Size ≤ (utf8 (c :: cs)).length % 256) :
    (decodeHere b).1 = 0 := by
  have hnat := toNat_pending h hsize
  have hfront : String.utf8EncodeChar c <+: b.data.drop b.pos := by
    have hfront := h.front
    rw [utf8_cons] at hfront
    exact (List.prefix_append _ _).trans hfront
  have hroom : (UInt8.ofNat b.pending).toNat ≤ (b.data.drop b.pos).length := by
    rw [hnat]
    exact (Nat.mod_le _ _).trans h.front.length_le
  by_contra hne
  obtain ⟨seq, v, hseq, hseqfront, -⟩ := utf8Decode_sequence hroom hne
  rw [hnat, List.prefix_take_iff] at hseqfront
  have hlen : seq.length < (String.utf8EncodeChar c).length := by
    rw [String.length_utf8EncodeChar]
    omega
  -- both would be decoded from the same bytes
  have hinner : seq <+: String.utf8EncodeChar c :=
    List.prefix_of_prefix_length_le hseqfront.1 hfront hlen.le
  have hfour : (String.utf8EncodeChar c).take (4 : UInt8).toNat = String.utf8EncodeChar c := by
    apply List.take_of_length_le
    rw [String.length_utf8EncodeChar]
    exact c.utf8Size_le_four
  have h₁ := @Sequence.decode _ _ hseq (String.utf8EncodeChar c) 4 (by rwa [hfour])
  have h₂ := @utf8Decode_char c (String.utf8EncodeChar c) 4
    ⟨[], by rw [List.append_nil, hfour]⟩
  rw [h₁, ← String.length_utf8EncodeChar] at h₂
  exact hlen.ne (Prod.mk.inj h₂).1

/-! ## The loop -/

theorem length_wideBytes (modifier : Modifier) (c : Char) : (wideBytes modifier c).length ≤ 4 := by
  unfold wideBytes utf16Units unitBytes
  split
  · exact Nat.le_refl 4
  · split
    · exact Nat.le_of_ble_eq_true rfl
    · exact Nat.le_of_ble_eq_true rfl

/-- The loop goes on at a character. -/
theorem peek_char {c : Char} {cs : List Char} (h : Reads b (utf8 (c :: cs))) (hnul : c.toNat ≠ 0)
    (hspace : isSpaceChar c = false) : ¬ (b.peekbyte 0 = 0 ∨ isSpace (b.peekbyte 0) = true) := by
  obtain ⟨hne, hsp⟩ := head_utf8EncodeChar c hnul (utf8 cs)
  rw [h.peek, utf8_cons, hsp, hspace, not_or]
  exact ⟨hne, Bool.false_ne_true⟩

/-- A turn of the loop upon a character that can be decoded. -/
theorem stringLoop_char {modifier : Modifier} (hmodifier : modifier = .long ∨ modifier = .longLong)
    {c : Char} {cs : List Char} (h : Reads b (utf8 (c :: cs))) (hsize : b.size < 2 ^ 64)
    (hnul : c.toNat ≠ 0) (hspace : isSpaceChar c = false)
    (henough : c.utf8Size ≤ (utf8 (c :: cs)).length % 256) {xs : List UInt8}
    (hroom : xs.length + 4 < 2 ^ 64) (fuel : Nat) (result : UInt32) :
    stringLoop modifier (fuel + 1) result b (filled xs) =
      stringLoop modifier fuel (result + UInt32.ofNat c.utf8Size) (b.advance c.utf8Size)
        (filled (xs ++ wideBytes modifier c)) := by
  have hgo := peek_char h hnul hspace
  have hlen := length_wideBytes modifier c
  have hcount : c.utf8Size ≠ 0 := c.utf8Size_pos.ne'
  rcases hmodifier with rfl | rfl
  · have hbytes : utf16Encode c.val = wideBytes .long c := by
      rw [utf16Encode_val, wideBytes, if_neg (by decide)]
    simp only [stringLoop, hgo, if_false, decodeHere_char h hsize henough, hcount, hbytes]
    rw [storeAt_filled (by omega), Option.bind_some]
  · have hbytes : unitBytes c.val.toUInt16 ++ unitBytes (c.val >>> 16).toUInt16 =
        wideBytes .longLong c := by
      rw [utf32_val, wideBytes, if_pos rfl]
    simp only [stringLoop, hgo, if_false, decodeHere_char h hsize henough, hcount, hbytes]
    rw [writen_filled (by omega)]

/-- The loop ends at the end of the text and at white space. -/
theorem stringLoop_stop {modifier : Modifier} {rest : List Char} (h : Reads b (utf8 rest))
    (hnul : ∀ c ∈ rest, c.toNat ≠ 0) (hrest : ∀ c ∈ rest.head?, isSpaceChar c) (fuel : Nat)
    (result : UInt32) (out : Buffer) :
    stringLoop modifier fuel result b out = some (true, result, b, out) := by
  have hstop : b.peekbyte 0 = 0 ∨ isSpace (b.peekbyte 0) = true := by
    rw [h.peek]
    cases rest with
    | nil => exact .inl rfl
    | cons c rest =>
      rw [utf8_cons, (head_utf8EncodeChar c (hnul c List.mem_cons_self) _).2]
      exact .inr (hrest c rfl)
  cases fuel with
  | zero => rfl
  | succ fuel => simp only [stringLoop, hstop, if_true]

/-- It breaks off at a character that cannot be decoded. -/
theorem stringLoop_short {modifier : Modifier}
    (hmodifier : modifier = .long ∨ modifier = .longLong) {c : Char} {cs : List Char}
    (h : Reads b (utf8 (c :: cs))) (hsize : b.size < 2 ^ 64) (hnul : c.toNat ≠ 0)
    (hspace : isSpaceChar c = false) (hshort : ¬ c.utf8Size ≤ (utf8 (c :: cs)).length % 256)
    (fuel : Nat) (result : UInt32) (out : Buffer) :
    stringLoop modifier (fuel + 1) result b out = some (false, result, b, out) := by
  have hgo : ¬ (b.peekbyte 0 = 0 ∨ isSpace (b.peekbyte 0) = true) := peek_char h hnul hspace
  have hzero := decodeHere_short h hsize hshort
  rcases hmodifier with rfl | rfl
  · simp only [stringLoop, hgo, if_false, hzero, if_true]
  · simp only [stringLoop, hgo, if_false, hzero, if_true]

/-- **The loop over a run.** It comes to the end exactly if every character can be decoded, and has
then stored them all. -/
theorem stringLoop_run {modifier : Modifier} (hmodifier : modifier = .long ∨ modifier = .longLong)
    {cs rest : List Char} (h : Reads b (utf8 (cs ++ rest))) (hsize : b.size < 2 ^ 64)
    (hnul : ∀ c ∈ cs ++ rest, c.toNat ≠ 0) (hcs : ∀ c ∈ cs, isSpaceChar c = false)
    (hrest : ∀ c ∈ rest.head?, isSpaceChar c) {xs : List UInt8}
    (hroom : xs.length + 4 * cs.length < 2 ^ 64) {fuel : Nat} (hfuel : cs.length ≤ fuel)
    (result : UInt32) :
    (Decodable rest cs → ∃ b', stringLoop modifier fuel result b (filled xs) =
      some (true, result + UInt32.ofNat (utf8 cs).length, b',
        filled (xs ++ cs.flatMap (wideBytes modifier))) ∧ Reads b' (utf8 rest)) ∧
    (¬ Decodable rest cs → ∃ r b' out left, stringLoop modifier fuel result b (filled xs) =
      some (false, r, b', out) ∧ Reads b' left ∧ (utf8 rest).length < left.length) := by
  induction cs generalizing b xs fuel result with
  | nil =>
    refine ⟨fun _ => ⟨b, ?_, h⟩, fun hne => absurd trivial hne⟩
    rw [stringLoop_stop h hnul hrest, List.flatMap_nil, List.append_nil]
    exact congrArg (fun r => some (true, r, b, filled xs)) (UInt32.add_zero result).symm
  | cons c cs ih =>
    obtain ⟨fuel, rfl⟩ : ∃ n, fuel = n + 1 := ⟨fuel - 1, by rw [List.length_cons] at hfuel; omega⟩
    rw [List.length_cons] at hroom hfuel
    have hc := hnul c List.mem_cons_self
    have hsp := hcs c List.mem_cons_self
    have hlen := length_wideBytes modifier c
    by_cases henough : c.utf8Size ≤ (utf8 (c :: (cs ++ rest))).length % 256
    · rw [stringLoop_char hmodifier h hsize hc hsp henough (by omega) fuel result]
      have hnext : Reads (b.advance c.utf8Size) (utf8 (cs ++ rest)) := by
        rw [← String.length_utf8EncodeChar]
        rw [List.cons_append, utf8_cons] at h
        exact h.advance
      obtain ⟨ihgood, ihbad⟩ := ih hnext hsize (fun d hd => hnul d (List.mem_cons_of_mem _ hd))
        (fun d hd => hcs d (List.mem_cons_of_mem _ hd))
        (show (xs ++ wideBytes modifier c).length + 4 * cs.length < 2 ^ 64 by
          rw [List.length_append]; omega) (Nat.le_of_succ_le_succ hfuel) (result + UInt32.ofNat c.utf8Size)
      constructor
      · rintro ⟨-, hdec⟩
        obtain ⟨b', hloop, hreads⟩ := ihgood hdec
        refine ⟨b', ?_, hreads⟩
        rw [hloop, List.append_assoc, List.flatMap_cons, utf8_cons, List.length_append,
          String.length_utf8EncodeChar, UInt32.ofNat_add, UInt32.add_assoc]
      · intro hdec
        exact ihbad fun hrun => hdec ⟨henough, hrun⟩
    · constructor
      · rintro ⟨henough', -⟩
        exact absurd henough' henough
      · intro _
        refine ⟨result, b, filled xs, _, stringLoop_short hmodifier h hsize hc hsp henough fuel result _,
          h, ?_⟩
        have := c.utf8Size_pos
        rw [List.cons_append, utf8_cons, utf8_append, List.length_append, List.length_append,
          String.length_utf8EncodeChar]
        omega

/-! ## The directive -/

/-- **What is asked of the directive**: it skips the white space in front and consumes the run behind it,
and stores the run and a zero of the same width. -/
def StoresRun (env : ScanEnv) (config : ScanConfig) (address : UInt64) (b : Buffer) (st : Store)
    (cs : List Char) : Prop :=
  let spaces := cs.takeWhile isSpaceChar
  let text := cs.dropWhile isSpaceChar
  ∃ b', scanArg env config b st = some (UInt32.ofNat (utf8 (spaces ++ run text)).length, b',
      st.write address ((run text).flatMap (wideBytes config.modifier) ++
        terminator config.modifier)) ∧
    Reads b' (utf8 (afterRun text))

theorem isSpace_utf8 {cs : List Char} (h : ∀ c ∈ cs, isSpaceChar c) : ∀ byte ∈ utf8 cs, isSpace byte := by
  intro byte hbyte
  obtain ⟨c, hc, hbyte⟩ := List.mem_flatMap.mp hbyte
  have hspace := h c hc
  simp only [isSpaceChar, decide_eq_true_eq] at hspace
  have hnat : c.toNat = c.val.toNat := rfl
  rw [String.utf8EncodeChar, if_pos (by omega), List.mem_singleton] at hbyte
  have htoNat : byte.toNat = c.toNat := by
    rw [hbyte, hnat]
    exact UInt8.toNat_ofNat_of_lt' (show c.val.toNat < 256 by omega)
  simp only [isSpace, ← UInt8.toNat_inj, UInt8.le_iff_toNat_le, htoNat, UInt8.reduceToNat,
    decide_eq_true_eq]
  exact hspace

theorem head_dropWhile {p : Char → Bool} {cs : List Char} : ∀ c ∈ (cs.dropWhile p).head?, ¬ p c := by
  intro c hc
  have h := List.head?_dropWhile_not p cs
  rw [Option.mem_def.mp hc] at h
  simpa using h

/-- The run behind the white space, as `scan_arg` gets to it. -/
theorem scanArg_wide (env : ScanEnv) {config : ScanConfig} {address : UInt64}
    (hconfig : WideDirective config address) {cs : List Char}
    (hreads : Reads b (utf8 cs)) (hnul : ∀ c ∈ cs, c.toNat ≠ 0) :
    ∃ b₁, b₁.size = b.size ∧ Reads b₁ (utf8 (cs.dropWhile isSpaceChar)) ∧
      ∀ st, scanArg env config b st =
        (stringLoop config.modifier (b₁.size - b₁.pos) 0 b₁ (filled [])).map
          fun (finished, result, b, out) =>
            (UInt32.ofNat (utf8 (cs.takeWhile isSpaceChar)).length + result, b,
              st.write address (if finished then (terminator config.modifier).foldl Buffer.writebyte out
                else out).contents) := by
  obtain ⟨htype, hmodifier, hstores, hplain, hwidth, hdata⟩ := hconfig
  have hsplit : utf8 cs = utf8 (cs.takeWhile isSpaceChar) ++ utf8 (cs.dropWhile isSpaceChar) := by
    rw [← utf8_append, List.takeWhile_append_dropWhile]
  rw [hsplit] at hreads
  have hhead : ¬ isSpace ((utf8 (cs.dropWhile isSpaceChar)).headD 0) := by
    cases htext : cs.dropWhile isSpaceChar with
    | nil => exact Bool.eq_false_iff.mp isSpace_zero
    | cons c text =>
      have hmem : c ∈ cs := (List.dropWhile_sublist _).subset (by rw [htext]; exact List.mem_cons_self)
      rw [utf8_cons, (head_utf8EncodeChar c (hnul c hmem) _).2]
      exact head_dropWhile c (by rw [htext]; rfl)
  obtain ⟨b₁, hskip, hreads₁⟩ := consumeWhitespaces_reads
    (isSpace_utf8 fun c hc => List.mem_takeWhile_imp hc) hreads hhead
  refine ⟨b₁, ?_, hreads₁, fun st => ?_⟩
  · have hsize := (consumeWhitespaces_moves b).size
    rwa [hskip] at hsize
  · have hout : outBuffer env config = filled [] := by
      rw [outBuffer, hplain]
      rfl
    simp only [scanArg, Bool.false_eq_true, if_false, hskip, hwidth, doScan, htype, scanString,
      hstores, hout, Store.keep, hdata, hplain, Option.map_map]
    rfl

/-- **A wide string is read right exactly if every character of its run can be decoded**, with the
number of bytes left taken modulo 256. -/
theorem storesRun_iff_decodable (env : ScanEnv) {config : ScanConfig} {address : UInt64}
    (hconfig : WideDirective config address) {b : Buffer} {cs : List Char}
    (hreads : Reads b (utf8 cs)) (hnul : ∀ c ∈ cs, c ≠ '\x00') (hsize : b.size ≤ 65536)
    (st : Store) :
    StoresRun env config address b st cs ↔
      Decodable (afterRun (cs.dropWhile isSpaceChar)) (run (cs.dropWhile isSpaceChar)) := by
  have hzero : ∀ c ∈ cs, c.toNat ≠ 0 := fun c hc h => hnul c hc (Char.toNat_inj.mp h)
  obtain ⟨b₁, hsize₁, hreads₁, hscan⟩ := scanArg_wide env hconfig hreads hzero
  have hmodifier := hconfig.modifier
  have hbound : b₁.size < 2 ^ 64 := by omega
  set text := cs.dropWhile isSpaceChar
  have hsplit : run text ++ afterRun text = text := List.takeWhile_append_dropWhile
  have hbytes : (utf8 text).length = (utf8 (run text)).length + (utf8 (afterRun text)).length := by
    rw [← List.length_append, ← utf8_append, hsplit]
  have hcount : (run text).length ≤ b₁.size - b₁.pos := by
    rw [← hreads₁.length, hbytes]
    exact (length_le_utf8 _).trans (Nat.le_add_right _ _)
  have hsub : ∀ c ∈ text, c.toNat ≠ 0 := fun c hc => hzero c ((List.dropWhile_sublist _).subset hc)
  obtain ⟨hgood, hbad⟩ := stringLoop_run hmodifier
    (show Reads b₁ (utf8 (run text ++ afterRun text)) by rwa [hsplit]) hbound (by rwa [hsplit])
    (fun c hc => by simpa using List.mem_takeWhile_imp hc)
    (fun c hc => by simpa using head_dropWhile c hc)
    (show [].length + 4 * (run text).length < 2 ^ 64 by rw [List.length_nil]; omega) hcount 0
  constructor
  · rintro ⟨b', hresult, hrest⟩
    by_contra hdec
    obtain ⟨r, b'', out, left, hloop, hleft, hlt⟩ := hbad hdec
    rw [hscan st, hloop, Option.map_some, Option.some.injEq, Prod.mk.injEq, Prod.mk.injEq] at hresult
    have htext : left = utf8 (afterRun text) := by
      rw [← hleft.text, ← hrest.text, hresult.2.1]
    exact hlt.ne (congrArg List.length htext.symm)
  · intro hdec
    obtain ⟨b', hloop, hrest⟩ := hgood hdec
    refine ⟨b', ?_, hrest⟩
    have hwide : ((run text).flatMap (wideBytes config.modifier)).length ≤ 4 * (run text).length := by
      induction run text with
      | nil => exact Nat.zero_le _
      | cons c cs ih =>
        have := length_wideBytes config.modifier c
        rw [List.flatMap_cons, List.length_append, List.length_cons]
        omega
    have hend : (terminator config.modifier).length ≤ 4 := by
      rcases hmodifier with h | h <;> rw [h] <;> decide
    rw [hscan st, hloop, Option.map_some]
    simp only [if_true, List.nil_append, UInt32.zero_add]
    rw [writebytes_filled (by omega)]
    simp only [filled, Buffer.contents, List.take_length]
    rw [utf8_append, List.length_append, UInt32.ofNat_add]

/-- `sscanf("aé b", "%ls", p)`. -/
def wideConfig : ScanConfig := ⟨.string, .long, {}, 0, 0, some 4096, 0⟩

theorem storesRun_small : StoresRun plainEnv wideConfig 4096
    (.fixed [97, 0xC3, 0xA9, 32, 98] 5) ⟨fun _ => 0, []⟩ ['a', 'é', ' ', 'b'] := by
  have h := @storesRun_iff_decodable plainEnv wideConfig 4096
    ⟨rfl, .inl rfl, rfl, rfl, rfl, rfl⟩ (.fixed [97, 0xC3, 0xA9, 32, 98] 5)
    ['a', 'é', ' ', 'b'] (reads_fixed _ (by decide)) (by simp) (by decide) ⟨fun _ => 0, []⟩
  rw [h]
  decide

/-- Nothing is read from 256 letters. -/
theorem storesRun_256 : ¬ StoresRun plainEnv wideConfig 4096
    (.fixed (List.replicate 256 97) 256) ⟨fun _ => 0, []⟩ (List.replicate 256 'a') := by
  rintro ⟨b', hscan, -⟩
  have hcount : (scanArg plainEnv wideConfig (.fixed (List.replicate 256 97) 256)
      ⟨fun _ => 0, []⟩).map (fun scanned => scanned.1) = some 0 := by decide +kernel
  have hletters : (utf8 ((List.replicate 256 'a').takeWhile isSpaceChar ++
      run ((List.replicate 256 'a').dropWhile isSpaceChar))).length = 256 := by decide +kernel
  rw [hscan, hletters] at hcount
  cases hcount
end WindowsLibc.Scanf
