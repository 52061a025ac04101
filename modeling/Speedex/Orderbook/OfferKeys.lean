import Speedex.Orderbook.Persist

/-! The bytes of offer keys (`orderbook/typedefs.h`, `utils/price.h`).  A key is written in place, a
price of 6 bytes and two fields of 8, most significant byte first, so that comparing bytes compares
price, owner and id. -/

namespace Speedex

open Lib

/-! ### Writing and reading -/

/-- The assignment of a word to one byte of a key. -/
def OfferKey.setByte (buf : OfferKey) (loc : Nat) (word : UInt64) : OfferKey :=
  ⟨buf.bytes.set loc (Byte.ofNat word.toNat), by rw [List.length_set, buf.length_eq]⟩

/-- `write_price_big_endian`. -/
def writePriceBigEndian (buf : OfferKey) (price : Price) : OfferKey :=
  (List.range 6).foldl (fun buf loc =>
    let offset := (6 - loc - 1) * 8
    buf.setByte loc ((price >>> .ofNat offset) &&& 0xFF)) buf

/-- `read_price_big_endian`. -/
def readPrice (buf : OfferKey) : Price :=
  (buf.bytes.take 6).foldl (fun p byte => (p <<< 8) + .ofNat byte.val) 0

/-- What `write_unsigned_big_endian`, of a library, does with a buffer, a value and an offset: it
puts the 8 bytes of the value there. -/
def WritesBigEndian (writeUnsigned : OfferKey → UInt64 → Nat → OfferKey) : Prop :=
  ∀ buf value offset, offset + 8 ≤ 22 → (writeUnsigned buf value offset).bytes =
    buf.bytes.take offset ++ bytesBE 8 value.toNat ++ buf.bytes.drop (offset + 8)

section Key

variable {writeUnsigned : OfferKey → UInt64 → Nat → OfferKey}

/-- `generate_orderbook_trie_key`, into a buffer. -/
def writeOrderbookTrieKey (writeUnsigned : OfferKey → UInt64 → Nat → OfferKey) (minPrice : Price)
    (owner : AccountID) (offerId : UInt64) (buf : OfferKey) : OfferKey :=
  let offset := 0
  let buf := writePriceBigEndian buf minPrice
  let offset := offset + 6
  let buf := writeUnsigned buf owner offset
  let offset := offset + 8
  writeUnsigned buf offerId offset

/-- The tests of `write_thunks` on a new offer, but for the later deletions. -/
def reachesKey (writeUnsigned : OfferKey → UInt64 → Nat → OfferKey) (keyBuf : OfferKey)
    (offerKeyBuf : OfferKey) (offer : Offer) : Bool :=
  let minExecPrice := readPrice keyBuf
  if offer.minPrice ≥ minExecPrice then
    let offerKeyBuf := writeOrderbookTrieKey writeUnsigned offer.minPrice offer.owner offer.offerId
      offerKeyBuf
    if offer.minPrice > minExecPrice then true else offerKeyBuf ≥ keyBuf
  else false

/-- A loop that sets the first `n` elements. -/
theorem foldl_set_range {α : Type} (f : Nat → α) (l : List α) {n : Nat} (hn : n ≤ l.length) :
    (List.range n).foldl (fun l i => l.set i (f i)) l = (List.range n).map f ++ l.drop n := by
  induction n with
  | zero => simp
  | succ n ih =>
    rw [List.range_succ, List.foldl_append, List.foldl_cons, List.foldl_nil, ih (by omega),
      List.map_append, List.append_assoc, List.set_append_right _ _ (by simp)]
    congr 1
    rw [List.length_map, List.length_range, Nat.sub_self, List.drop_eq_getElem_cons (by omega)]
    rfl

/-- The byte that a shift brings to the low end of a word. -/
theorem byte_of_shift (word : UInt64) {j : Nat} (hj : j < 8) :
    Fin.ofNat 256 ((word >>> .ofNat (j * 8)) &&& 0xFF).toNat = Fin.ofNat 256 (word.toNat / 256 ^ j) := by
  have hshift : (word >>> UInt64.ofNat (j * 8)).toNat = word.toNat / 256 ^ j := by
    rw [UInt64.toNat_shiftRight, UInt64.toNat_ofNat_of_lt' (show j * 8 < 2 ^ 64 by omega),
      Nat.mod_eq_of_lt (by omega), Nat.shiftRight_eq_div_pow, Nat.mul_comm, Nat.pow_mul]
  have hmask : ((0xFF : UInt64)).toNat = 2 ^ 8 - 1 := rfl
  rw [UInt64.toNat_and, hshift, hmask, Nat.and_two_pow_sub_one_eq_mod, Fin.ext_iff, Fin.val_ofNat,
    Fin.val_ofNat]
  omega

theorem bytes_writePriceBigEndian (buf : OfferKey) (price : Price) :
    (writePriceBigEndian buf price).bytes = bytesBE 6 price.toNat ++ buf.bytes.drop 6 := by
  have hloop : (writePriceBigEndian buf price).bytes = (List.range 6).foldl (fun l loc =>
      l.set loc (Fin.ofNat 256 ((price >>> .ofNat ((6 - loc - 1) * 8)) &&& 0xFF).toNat)) buf.bytes :=
    (List.foldl_hom OfferKey.bytes fun _ _ => rfl).symm
  rw [hloop, foldl_set_range _ _ (by rw [buf.length_eq]; omega), bytesBE_eq_map]
  congr 1
  refine List.map_congr_left fun loc hloc => byte_of_shift price ?_
  have := List.mem_range.mp hloc
  omega

/-- The key does not depend on what the buffer held. -/
theorem writeOrderbookTrieKey_eq (hwrite : WritesBigEndian writeUnsigned) (minPrice : Price)
    (owner : AccountID) (offerId : UInt64) (buf : OfferKey) :
    writeOrderbookTrieKey writeUnsigned minPrice owner offerId buf =
      generateOrderbookTrieKey minPrice owner offerId := by
  refine OfferKey.bytes_injective ?_
  have hlength := buf.length_eq
  simp only [writeOrderbookTrieKey, generateOrderbookTrieKey]
  rw [hwrite _ _ _ (by omega), hwrite _ _ _ (by omega), bytes_writePriceBigEndian]
  simp [List.take_append, List.drop_append, List.take_of_length_le, List.drop_eq_nil_of_le, hlength]

/-- The loop of `read_price_big_endian` on bytes that a word has room for. -/
theorem toNat_foldl_bytes (bytes : List Byte) {p : Price}
    (h : (p.toNat + 1) * 256 ^ bytes.length ≤ 2 ^ 64) :
    (bytes.foldl (fun (p : Price) byte => (p <<< 8) + .ofNat byte.val) p).toNat =
      bytes.foldl (fun p byte => p * 256 + byte.val) p.toNat := by
  induction bytes generalizing p with
  | nil => rfl
  | cons byte bytes ih =>
    have hbyte := byte.isLt
    have hpos := Nat.pow_pos (n := bytes.length) (show 0 < 256 by omega)
    rw [List.length_cons, pow_succ, Nat.mul_comm (256 ^ _), ← Nat.mul_assoc] at h
    have hroom : (p.toNat + 1) * 256 ≤ 2 ^ 64 := (Nat.le_mul_of_pos_right _ hpos).trans h
    have hshift : (p <<< 8).toNat = p.toNat * 256 := by
      rw [UInt64.toNat_shiftLeft, Nat.shiftLeft_eq]
      exact Nat.mod_eq_of_lt (by show p.toNat * 256 < _; omega)
    have hnext : ((p <<< 8) + UInt64.ofNat byte.val).toNat = p.toNat * 256 + byte.val := by
      rw [UInt64.toNat_add, hshift, UInt64.toNat_ofNat_of_lt' (hbyte.trans (by decide))]
      exact Nat.mod_eq_of_lt (by omega)
    rw [List.foldl_cons, List.foldl_cons, ih, hnext]
    rw [hnext]
    exact (Nat.mul_le_mul_right _ (by omega)).trans h

theorem toNat_readPrice (buf : OfferKey) : (readPrice buf).toNat = readPriceBigEndian buf := by
  refine toNat_foldl_bytes (buf.bytes.take 6) ?_
  rw [List.length_take, buf.length_eq]
  decide

end Key

/-! ### The order of keys -/

section Order

variable {minPrice minPrice' : Price} {owner owner' : AccountID} {offerId offerId' : UInt64}

theorem toNat_generateOrderbookTrieKey (hprice : minPrice.toNat < 2 ^ 48) :
    (generateOrderbookTrieKey minPrice owner offerId).toNat =
      minPrice.toNat * 2 ^ 128 + owner.toNat * 2 ^ 64 + offerId.toNat := by
  have hkey := key_toNat ⟨⟨0, 0, .SELL⟩, offerId, owner, 0, minPrice⟩
  rwa [Nat.mod_eq_of_lt hprice] at hkey

theorem generateOrderbookTrieKey_lt_iff (hprice : minPrice.toNat < 2 ^ 48)
    (hprice' : minPrice'.toNat < 2 ^ 48) :
    generateOrderbookTrieKey minPrice owner offerId <
        generateOrderbookTrieKey minPrice' owner' offerId' ↔
      toLex (minPrice, toLex (owner, offerId)) < toLex (minPrice', toLex (owner', offerId')) := by
  have ho := owner.toNat_lt
  have ho' := owner'.toNat_lt
  have hi := offerId.toNat_lt
  have hi' := offerId'.toNat_lt
  rw [OfferKey.lt_iff, toNat_generateOrderbookTrieKey hprice, toNat_generateOrderbookTrieKey hprice',
    Prod.Lex.toLex_lt_toLex, Prod.Lex.toLex_lt_toLex]
  simp only [UInt64.lt_iff_toNat_lt, ← UInt64.toNat_inj]
  constructor
  · intro hlt
    omega
  · rintro (hlt | ⟨heq, hlt | ⟨heq', hlt⟩⟩) <;> omega

theorem readPrice_generateOrderbookTrieKey (hprice : minPrice.toNat < 2 ^ 48) :
    readPrice (generateOrderbookTrieKey minPrice owner offerId) = minPrice := by
  have ho := owner.toNat_lt
  have hi := offerId.toNat_lt
  rw [← UInt64.toNat_inj, toNat_readPrice, readPriceBigEndian_eq,
    toNat_generateOrderbookTrieKey hprice]
  omega

/-- The test of `write_thunks` compares prices first, and keys only where they agree: it compares
keys. -/
theorem reachesKey_iff {writeUnsigned : OfferKey → UInt64 → Nat → OfferKey}
    (hwrite : WritesBigEndian writeUnsigned) (keyBuf buf : OfferKey) {offer : Offer}
    (hprice : offer.minPrice.toNat < 2 ^ 48) :
    reachesKey writeUnsigned keyBuf buf offer = true ↔ keyBuf ≤ offer.key := by
  have ho := offer.owner.toNat_lt
  have hi := offer.offerId.toNat_lt
  have hkey := @toNat_generateOrderbookTrieKey _ offer.owner offer.offerId hprice
  have hread := toNat_readPrice keyBuf
  rw [readPriceBigEndian_eq] at hread
  simp only [reachesKey, writeOrderbookTrieKey_eq hwrite]
  rw [OfferKey.le_iff, Offer.key]
  by_cases hle : offer.minPrice ≥ readPrice keyBuf
  · rw [if_pos hle]
    by_cases hlt : offer.minPrice > readPrice keyBuf
    · rw [if_pos hlt]
      have := UInt64.lt_iff_toNat_lt.mp hlt
      exact iff_of_true rfl (by omega)
    · rw [if_neg hlt, decide_eq_true_eq, ge_iff_le, OfferKey.le_iff]
  · rw [if_neg hle]
    rw [ge_iff_le, UInt64.le_iff_toNat_le] at hle
    exact iff_of_false Bool.false_ne_true (by omega)

/-- Phase 3 inserts the offers that pass this test, unless their keys are deleted later. -/
theorem dbPut_eq {writeUnsigned : OfferKey → UInt64 → Nat → OfferKey}
    (hwrite : WritesBigEndian writeUnsigned) (keyBuf buf : OfferKey) (later : List OfferKey)
    {offer : Offer} (hprice : offer.minPrice.toNat < 2 ^ 48) :
    OrderbookLMDB.dbPut keyBuf later offer =
      (reachesKey writeUnsigned keyBuf buf offer && decide (offer.key ∉ later)) := by
  have hmax : offer.minPrice ≤ Price.maxPrice := by
    rw [UInt64.le_iff_toNat_le, show Price.maxPrice.toNat = 2 ^ 48 - 1 from rfl]
    omega
  rw [Bool.eq_iff_iff, OrderbookLMDB.dbPut_iff hmax, Bool.and_eq_true, decide_eq_true_eq,
    reachesKey_iff hwrite keyBuf buf hprice]

end Order

/-- Keys are a faithful and ordered encoding of price, owner and id, and the comparisons of
`write_thunks` find the keys from the threshold on. -/
theorem writeOrderbookTrieKey_ordered {writeUnsigned : OfferKey → UInt64 → Nat → OfferKey}
    (hwrite : WritesBigEndian writeUnsigned) :
    (∀ (minPrice minPrice' : Price) (owner owner' : AccountID) (offerId offerId' : UInt64)
      (buf buf' : OfferKey), minPrice.toNat < 2 ^ 48 → minPrice'.toNat < 2 ^ 48 →
      (writeOrderbookTrieKey writeUnsigned minPrice owner offerId buf =
          writeOrderbookTrieKey writeUnsigned minPrice' owner' offerId' buf' →
        minPrice = minPrice' ∧ owner = owner' ∧ offerId = offerId') ∧
      ((writeOrderbookTrieKey writeUnsigned minPrice owner offerId buf).bytes <
          (writeOrderbookTrieKey writeUnsigned minPrice' owner' offerId' buf').bytes ↔
        toLex (minPrice, toLex (owner, offerId)) < toLex (minPrice', toLex (owner', offerId'))) ∧
      readPrice (writeOrderbookTrieKey writeUnsigned minPrice owner offerId buf) = minPrice) ∧
    ∀ (offer : Offer) (keyBuf buf : OfferKey), offer.minPrice.toNat < 2 ^ 48 →
      (reachesKey writeUnsigned keyBuf buf offer = true ↔ keyBuf.bytes ≤
        (writeOrderbookTrieKey writeUnsigned offer.minPrice offer.owner offer.offerId buf).bytes) := by
  refine ⟨fun p p' o o' i i' buf buf' hp hp' => ?_, fun offer keyBuf buf hprice => ?_⟩
  · rw [writeOrderbookTrieKey_eq hwrite, writeOrderbookTrieKey_eq hwrite]
    refine ⟨fun heq => ?_, generateOrderbookTrieKey_lt_iff hp hp',
      readPrice_generateOrderbookTrieKey hp⟩
    have hnat := congrArg OfferKey.toNat heq
    rw [toNat_generateOrderbookTrieKey hp, toNat_generateOrderbookTrieKey hp'] at hnat
    have ho := o.toNat_lt
    have ho' := o'.toNat_lt
    have hi := i.toNat_lt
    have hi' := i'.toNat_lt
    exact ⟨UInt64.toNat_inj.mp (by omega), UInt64.toNat_inj.mp (by omega),
      UInt64.toNat_inj.mp (by omega)⟩
  · rw [writeOrderbookTrieKey_eq hwrite]
    exact reachesKey_iff hwrite keyBuf buf hprice

/-- A `write_unsigned_big_endian` for 64-bit values. -/
def spliceUnsigned (buf : OfferKey) (value : UInt64) (offset : Nat) : OfferKey :=
  if h : offset + 8 ≤ 22 then
    ⟨buf.bytes.take offset ++ bytesBE 8 value.toNat ++ buf.bytes.drop (offset + 8), by
      simp [buf.length_eq]
      omega⟩
  else buf

theorem spliceUnsigned_writes : WritesBigEndian spliceUnsigned := fun buf value offset h => by
  rw [spliceUnsigned, dif_pos h]

/-- The key of a dearer offer is larger, whatever the owners. -/
theorem writeOrderbookTrieKey_ordered_splice :
    (writeOrderbookTrieKey spliceUnsigned 255 9 7 .zero).bytes <
        (writeOrderbookTrieKey spliceUnsigned 256 3 1 .max).bytes ↔
      toLex ((255 : Price), toLex ((9 : AccountID), (7 : UInt64))) <
        toLex ((256 : Price), toLex ((3 : AccountID), (1 : UInt64))) :=
  ((writeOrderbookTrieKey_ordered spliceUnsigned_writes).1 255 256 9 3 7 1 .zero .max (by decide)
    (by decide)).2.1

end Speedex
