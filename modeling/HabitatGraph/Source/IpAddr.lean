import Mathlib.Data.List.TakeWhile

/-! # IP addresses

The addresses of the standard library, how they are read from a text, and how they are
written. A text is an address only when all of it is read.
-/

namespace HabitatGraph

/-- An IPv4 address by its octets. -/
structure Ipv4Addr where
  a : UInt8
  b : UInt8
  c : UInt8
  d : UInt8
deriving DecidableEq, Repr

/-- An IPv6 address by its eight segments. -/
structure Ipv6Addr where
  segments : List UInt16
  length_eq : segments.length = 8
deriving DecidableEq, Repr

inductive IpAddr
  | v4 (addr : Ipv4Addr)
  | v6 (addr : Ipv6Addr)
deriving DecidableEq, Repr

/-! ## Classes of addresses -/

namespace Ipv4Addr

/-- The address as a number of 32 bits. -/
def toNat (addr : Ipv4Addr) : Nat :=
  ((addr.a.toNat * 256 + addr.b.toNat) * 256 + addr.c.toNat) * 256 + addr.d.toNat

def isLoopback (addr : Ipv4Addr) : Bool := addr.a == 127

def isUnspecified (addr : Ipv4Addr) : Bool :=
  addr.a == 0 && addr.b == 0 && addr.c == 0 && addr.d == 0

def isPrivate (addr : Ipv4Addr) : Bool :=
  addr.a == 10 || (addr.a == 172 && 16 ≤ addr.b && addr.b ≤ 31) ||
    (addr.a == 192 && addr.b == 168)

def isLinkLocal (addr : Ipv4Addr) : Bool := addr.a == 169 && addr.b == 254

/-- The first two octets as a segment. -/
def high (addr : Ipv4Addr) : UInt16 := UInt16.ofNat (addr.a.toNat * 256 + addr.b.toNat)

/-- The last two octets as a segment. -/
def low (addr : Ipv4Addr) : UInt16 := UInt16.ofNat (addr.c.toNat * 256 + addr.d.toNat)

/-- The address of two segments. -/
def ofSegments (high low : UInt16) : Ipv4Addr :=
  ⟨UInt8.ofNat (high.toNat / 256), UInt8.ofNat (high.toNat % 256),
    UInt8.ofNat (low.toNat / 256), UInt8.ofNat (low.toNat % 256)⟩

/-- `::ffff:a.b.c.d` -/
def toIpv6Mapped (addr : Ipv4Addr) : Ipv6Addr :=
  ⟨[0, 0, 0, 0, 0, 0xFFFF, addr.high, addr.low], rfl⟩

/-- `::a.b.c.d` -/
def toIpv6Compatible (addr : Ipv4Addr) : Ipv6Addr :=
  ⟨[0, 0, 0, 0, 0, 0, addr.high, addr.low], rfl⟩

theorem toNat_high (addr : Ipv4Addr) : addr.high.toNat = addr.a.toNat * 256 + addr.b.toNat := by
  have ha := addr.a.toNat_lt
  have hb := addr.b.toNat_lt
  exact UInt16.toNat_ofNat_of_lt (by simp only [UInt16.size]; omega)

theorem toNat_low (addr : Ipv4Addr) : addr.low.toNat = addr.c.toNat * 256 + addr.d.toNat := by
  have hc := addr.c.toNat_lt
  have hd := addr.d.toNat_lt
  exact UInt16.toNat_ofNat_of_lt (by simp only [UInt16.size]; omega)

theorem ofSegments_high_low (addr : Ipv4Addr) : ofSegments addr.high addr.low = addr := by
  have hb := addr.b.toNat_lt
  have hd := addr.d.toNat_lt
  have hdiv : ∀ m n : Nat, n < 256 → (m * 256 + n) / 256 = m ∧ (m * 256 + n) % 256 = n := by omega
  simp only [ofSegments, toNat_high, toNat_low, (hdiv _ _ hb).1, (hdiv _ _ hb).2, (hdiv _ _ hd).1,
    (hdiv _ _ hd).2, UInt8.ofNat_toNat]

theorem high_low_ofSegments (high low : UInt16) :
    (ofSegments high low).high = high ∧ (ofSegments high low).low = low := by
  have hhigh := high.toNat_lt
  have hlow := low.toNat_lt
  have hoctet : ∀ n : Nat, n < 256 → (UInt8.ofNat n).toNat = n :=
    fun n hn => UInt8.toNat_ofNat_of_lt hn
  have hsplit : ∀ n : Nat, n / 256 * 256 + n % 256 = n := by omega
  apply And.intro
  · rw [Ipv4Addr.high, ofSegments, hoctet _ (by omega), hoctet _ (by omega), hsplit,
      UInt16.ofNat_toNat]
  · rw [Ipv4Addr.low, ofSegments, hoctet _ (by omega), hoctet _ (by omega), hsplit,
      UInt16.ofNat_toNat]

end Ipv4Addr

namespace Ipv6Addr

/-- The address as a number of 128 bits. -/
def toNat (addr : Ipv6Addr) : Nat :=
  addr.segments.foldl (fun n segment => n * 65536 + segment.toNat) 0

def isLoopback (addr : Ipv6Addr) : Bool := addr.segments == [0, 0, 0, 0, 0, 0, 0, 1]

def isUnspecified (addr : Ipv6Addr) : Bool := addr.segments == [0, 0, 0, 0, 0, 0, 0, 0]

/-- The address of the form `::a.b.c.d` or `::ffff:a.b.c.d`. -/
def toIpv4 (addr : Ipv6Addr) : Option Ipv4Addr :=
  match addr.segments with
  | [0, 0, 0, 0, 0, form, high, low] =>
      if form == 0 || form == 0xFFFF then some (Ipv4Addr.ofSegments high low) else none
  | _ => none

theorem toIpv4_eq_some_iff {addr : Ipv6Addr} {v4 : Ipv4Addr} :
    addr.toIpv4 = some v4 ↔ addr = v4.toIpv6Compatible ∨ addr = v4.toIpv6Mapped := by
  cases addr with
  | mk segments hlength =>
      simp only [toIpv4, Ipv4Addr.toIpv6Compatible, Ipv4Addr.toIpv6Mapped, Ipv6Addr.mk.injEq]
      apply Iff.intro
      · intro h
        split at h
        next form high low =>
          obtain ⟨hhigh, hlow⟩ := Ipv4Addr.high_low_ofSegments high low
          split at h
          next hform =>
            cases h
            rw [hhigh, hlow]
            rw [Bool.or_eq_true, beq_iff_eq, beq_iff_eq] at hform
            rcases hform with rfl | rfl
            · exact Or.inl rfl
            · exact Or.inr rfl
          next => cases h
        next => cases h
      · intro h
        rcases h with rfl | rfl
        · simp only [beq_self_eq_true, Bool.true_or, ↓reduceIte, Ipv4Addr.ofSegments_high_low]
        · simp only [beq_self_eq_true, Bool.or_true, ↓reduceIte, Ipv4Addr.ofSegments_high_low]

end Ipv6Addr

/-! ## Reading an address -/

/-- The value of a digit in a base up to 36. -/
def toDigit (radix : Nat) (ch : Char) : Option Nat :=
  let value :=
    if '0' ≤ ch ∧ ch ≤ '9' then some (ch.toNat - 48)
    else if 'a' ≤ ch ∧ ch ≤ 'z' then some (ch.toNat - 87)
    else if 'A' ≤ ch ∧ ch ≤ 'Z' then some (ch.toNat - 55)
    else none
  value.filter fun n => n < radix

/-- The text after a character. -/
def readGivenChar (ch : Char) : List Char → Option (List Char)
  | [] => none
  | c :: rest => if c = ch then some rest else none

/-- A number of at most `maxDigits` digits below `limit`. -/
def readNumber (radix maxDigits limit : Nat) (allowZeroPrefix : Bool) (chars : List Char) :
    Option (Nat × List Char) :=
  let digits := chars.takeWhile fun ch => (toDigit radix ch).isSome
  let value := (digits.filterMap (toDigit radix)).foldl (fun n digit => n * radix + digit) 0
  if maxDigits < digits.length then none
  else if digits.isEmpty then none
  else if !allowZeroPrefix && digits.head? == some '0' && 1 < digits.length then none
  else if value < limit then some (value, chars.dropWhile fun ch => (toDigit radix ch).isSome)
  else none

def readOctet (chars : List Char) : Option (UInt8 × List Char) :=
  (readNumber 10 3 256 false chars).map fun read => (UInt8.ofNat read.1, read.2)

def readSegment (chars : List Char) : Option (UInt16 × List Char) :=
  (readNumber 16 4 65536 true chars).map fun read => (UInt16.ofNat read.1, read.2)

/-- Read after a separator, which the first of a sequence does not have. -/
def readSeparator {α : Type} (separator : Char) (first : Bool)
    (read : List Char → Option (α × List Char)) (chars : List Char) : Option (α × List Char) :=
  if first then read chars else (readGivenChar separator chars).bind read

def readIpv4Addr (chars : List Char) : Option (Ipv4Addr × List Char) := do
  let (a, chars) ← readSeparator '.' true readOctet chars
  let (b, chars) ← readSeparator '.' false readOctet chars
  let (c, chars) ← readSeparator '.' false readOctet chars
  let (d, chars) ← readSeparator '.' false readOctet chars
  some (⟨a, b, c, d⟩, chars)

/-- Segments read in a row, and whether an IPv4 address ended them. -/
structure Segments where
  segments : List UInt16
  endsInV4 : Bool
  rest : List Char

/-- Read at most `limit` segments. An IPv4 address stands for two. -/
def readSegments : Nat → Bool → List Char → Segments
  | 0, _, chars => ⟨[], false, chars⟩
  | limit + 1, first, chars =>
      match if 0 < limit then readSeparator ':' first readIpv4Addr chars else none with
      | some (v4, rest) => ⟨[v4.high, v4.low], true, rest⟩
      | none =>
          match readSeparator ':' first readSegment chars with
          | some (segment, rest) =>
              let more := readSegments limit false rest
              ⟨segment :: more.segments, more.endsInV4, more.rest⟩
          | none => ⟨[], false, chars⟩

theorem length_readSegments_le (limit : Nat) (first : Bool) (chars : List Char) :
    (readSegments limit first chars).segments.length ≤ limit := by
  induction limit generalizing first chars with
  | zero => exact Nat.le_refl 0
  | succ limit ih =>
      rw [readSegments]
      split
      next hv4 =>
        split at hv4
        next hlimit =>
          simp only [List.length_cons, List.length_nil]
          omega
        next => cases hv4
      next =>
        split
        next => exact Nat.succ_le_succ (ih _ _)
        next => exact Nat.zero_le _

/-- Two runs of segments with zeros between them. -/
def Ipv6Addr.expand (head tail : List UInt16) (h : head.length + tail.length ≤ 8) : Ipv6Addr :=
  ⟨head ++ List.replicate (8 - (head.length + tail.length)) 0 ++ tail, by
    rw [List.length_append, List.length_append, List.length_replicate]
    omega⟩

def readIpv6Addr (chars : List Char) : Option (Ipv6Addr × List Char) :=
  let head := readSegments 8 true chars
  if h : head.segments.length = 8 then some (⟨head.segments, h⟩, head.rest)
  else if head.endsInV4 then none
  else
    (readGivenChar ':' head.rest).bind fun rest =>
      (readGivenChar ':' rest).map fun rest =>
        -- the double colon stands for at least one segment
        let tail := readSegments (8 - (head.segments.length + 1)) true rest
        (Ipv6Addr.expand head.segments tail.segments (by
          have hhead := length_readSegments_le 8 true chars
          have htail := length_readSegments_le (8 - (head.segments.length + 1)) true rest
          simp only [head, tail] at *
          omega), tail.rest)

/-- An IPv4 address that is the whole text. -/
def Ipv4Addr.parse (text : List Char) : Option Ipv4Addr :=
  match readIpv4Addr text with
  | some (addr, []) => some addr
  | _ => none

/-- An IPv6 address that is the whole text. -/
def Ipv6Addr.parse (text : List Char) : Option Ipv6Addr :=
  match readIpv6Addr text with
  | some (addr, []) => some addr
  | _ => none

/-- An address of either kind that is the whole text. -/
def IpAddr.parse (text : List Char) : Option IpAddr :=
  let read := ((readIpv4Addr text).map fun read => (IpAddr.v4 read.1, read.2)).or
    ((readIpv6Addr text).map fun read => (IpAddr.v6 read.1, read.2))
  match read with
  | some (addr, []) => some addr
  | _ => none

example : IpAddr.parse "::ffff:127.0.0.1".toList =
    some (.v6 (Ipv4Addr.toIpv6Mapped ⟨127, 0, 0, 1⟩)) := by decide +kernel

/-! ## What is read -/

/-- A character of an address. -/
def isAddressChar (ch : Char) : Bool := (toDigit 16 ch).isSome || ch == ':' || ch == '.'

/-- Some characters of an address stand before what is left of a text. -/
def ReadFrom (chars rest : List Char) : Prop :=
  ∃ taken, chars = taken ++ rest ∧ ∀ ch ∈ taken, isAddressChar ch

theorem ReadFrom.refl (chars : List Char) : ReadFrom chars chars :=
  ⟨[], rfl, fun _ hch => absurd hch List.not_mem_nil⟩

theorem ReadFrom.trans {chars middle rest : List Char} (h : ReadFrom chars middle)
    (hrest : ReadFrom middle rest) : ReadFrom chars rest := by
  obtain ⟨first, rfl, hfirst⟩ := h
  obtain ⟨second, rfl, hsecond⟩ := hrest
  refine ⟨first ++ second, (List.append_assoc _ _ _).symm, fun ch hch => ?_⟩
  rcases List.mem_append.mp hch with hch | hch
  · exact hfirst ch hch
  · exact hsecond ch hch

theorem ReadFrom.subset {chars rest : List Char} (h : ReadFrom chars rest) : rest ⊆ chars := by
  obtain ⟨taken, rfl, _⟩ := h
  exact List.subset_append_right _ _

theorem isSome_toDigit_mono {radix radix' : Nat} (hle : radix ≤ radix') {ch : Char}
    (h : (toDigit radix ch).isSome) : (toDigit radix' ch).isSome := by
  obtain ⟨digit, hdigit⟩ := Option.isSome_iff_exists.mp h
  rw [toDigit, Option.filter_eq_some_iff, decide_eq_true_iff] at hdigit
  rw [Option.isSome_iff_exists]
  refine ⟨digit, ?_⟩
  rw [toDigit, Option.filter_eq_some_iff, decide_eq_true_iff]
  exact ⟨hdigit.1, Nat.lt_of_lt_of_le hdigit.2 hle⟩

theorem readFrom_readGivenChar {ch : Char} (hch : isAddressChar ch) {chars rest : List Char}
    (h : readGivenChar ch chars = some rest) : ReadFrom chars rest := by
  cases chars with
  | nil => cases h
  | cons c chars =>
      rw [readGivenChar] at h
      split at h
      next heq =>
        cases h
        refine ⟨[c], rfl, fun other hother => ?_⟩
        rw [List.mem_singleton.mp hother, heq]
        exact hch
      next => cases h

theorem readFrom_readNumber {radix maxDigits limit : Nat} (hradix : radix ≤ 16) {zero : Bool}
    {chars : List Char} {read : Nat × List Char}
    (h : readNumber radix maxDigits limit zero chars = some read) : ReadFrom chars read.2 := by
  have hrest : read.2 = chars.dropWhile fun ch => (toDigit radix ch).isSome := by
    unfold readNumber at h
    simp only [Option.ite_none_left_eq_some, Option.ite_none_right_eq_some, Option.some.injEq] at h
    rw [← h.2.2.2.2]
  refine ⟨chars.takeWhile fun ch => (toDigit radix ch).isSome, ?_, fun ch hch => ?_⟩
  · rw [hrest, List.takeWhile_append_dropWhile]
  · have hsome : (toDigit radix ch).isSome := (List.mem_takeWhile_imp hch :)
    have hdigit := isSome_toDigit_mono hradix hsome
    rw [isAddressChar, hdigit, Bool.true_or, Bool.true_or]

theorem readFrom_readSeparator {α : Type} {separator : Char} (hseparator : isAddressChar separator)
    {first : Bool} {reader : List Char → Option (α × List Char)}
    (hreader : ∀ {chars read}, reader chars = some read → ReadFrom chars read.2)
    {chars : List Char} {read : α × List Char}
    (h : readSeparator separator first reader chars = some read) : ReadFrom chars read.2 := by
  cases first with
  | true => exact hreader h
  | false =>
      obtain ⟨rest, hchar, hrest⟩ := Option.bind_eq_some_iff.mp h
      exact (readFrom_readGivenChar hseparator hchar).trans (hreader hrest)

theorem readFrom_readOctet {chars : List Char} {read : UInt8 × List Char}
    (h : readOctet chars = some read) : ReadFrom chars read.2 := by
  obtain ⟨number, hnumber, rfl⟩ := Option.map_eq_some_iff.mp h
  exact readFrom_readNumber (by decide) hnumber

theorem readFrom_readSegment {chars : List Char} {read : UInt16 × List Char}
    (h : readSegment chars = some read) : ReadFrom chars read.2 := by
  obtain ⟨number, hnumber, rfl⟩ := Option.map_eq_some_iff.mp h
  exact readFrom_readNumber (by decide) hnumber

theorem readFrom_readIpv4Addr {chars : List Char} {read : Ipv4Addr × List Char}
    (h : readIpv4Addr chars = some read) : ReadFrom chars read.2 := by
  have hdot : isAddressChar '.' := rfl
  obtain ⟨a, ha, h⟩ := Option.bind_eq_some_iff.mp h
  obtain ⟨b, hb, h⟩ := Option.bind_eq_some_iff.mp h
  obtain ⟨c, hc, h⟩ := Option.bind_eq_some_iff.mp h
  obtain ⟨d, hd, h⟩ := Option.bind_eq_some_iff.mp h
  cases h
  have hafter : ∀ {first chars read}, readSeparator '.' first readOctet chars = some read →
      ReadFrom chars read.2 := fun h => readFrom_readSeparator hdot readFrom_readOctet h
  exact (hafter ha).trans ((hafter hb).trans ((hafter hc).trans (hafter hd)))

theorem readFrom_readSegments (limit : Nat) (first : Bool) (chars : List Char) :
    ReadFrom chars (readSegments limit first chars).rest := by
  have hcolon : isAddressChar ':' := rfl
  induction limit generalizing first chars with
  | zero => exact ReadFrom.refl chars
  | succ limit ih =>
      rw [readSegments]
      split
      next hv4 =>
        split at hv4
        next => exact readFrom_readSeparator hcolon readFrom_readIpv4Addr hv4
        next => cases hv4
      next =>
        split
        next hsegment =>
          exact (readFrom_readSeparator hcolon readFrom_readSegment hsegment).trans (ih _ _)
        next => exact ReadFrom.refl chars

theorem readFrom_readIpv6Addr {chars : List Char} {read : Ipv6Addr × List Char}
    (h : readIpv6Addr chars = some read) : ReadFrom chars read.2 := by
  have hcolon : isAddressChar ':' := rfl
  have hhead := readFrom_readSegments 8 true chars
  unfold readIpv6Addr at h
  dsimp only at h
  split at h
  next =>
    cases h
    exact hhead
  next =>
    split at h
    next => cases h
    next =>
      obtain ⟨middle, hfirst, h⟩ := Option.bind_eq_some_iff.mp h
      obtain ⟨rest, hsecond, rfl⟩ := Option.map_eq_some_iff.mp h
      exact hhead.trans ((readFrom_readGivenChar hcolon hfirst).trans
        ((readFrom_readGivenChar hcolon hsecond).trans (readFrom_readSegments _ _ _)))

/-- An IPv6 literal consists of digits, colons and dots. -/
theorem isAddressChar_of_parse {text : List Char} {addr : Ipv6Addr}
    (h : Ipv6Addr.parse text = some addr) : ∀ ch ∈ text, isAddressChar ch := by
  unfold Ipv6Addr.parse at h
  split at h
  next hread =>
    obtain ⟨taken, htext, htaken⟩ := readFrom_readIpv6Addr hread
    rw [List.append_nil] at htext
    rw [htext]
    exact htaken
  next => cases h

/-! ## Literals of either kind -/

/-- No IPv6 address begins with an IPv4 address. -/
theorem readIpv6Addr_of_readIpv4Addr {chars : List Char} {read : Ipv4Addr × List Char}
    (h : readIpv4Addr chars = some read) : readIpv6Addr chars = none := by
  have hsegments : readSegments 8 true chars = ⟨[read.1.high, read.1.low], true, read.2⟩ := by
    rw [readSegments, if_pos (by decide), readSeparator, if_pos rfl, h]
  unfold readIpv6Addr
  simp only [hsegments, List.length_cons, List.length_nil]
  rfl

theorem readGivenChar_of_notMem {ch : Char} {chars : List Char} (h : ch ∉ chars) :
    readGivenChar ch chars = none := by
  cases chars with
  | nil => rfl
  | cons c chars =>
      rw [List.mem_cons, not_or] at h
      exact if_neg (Ne.symm h.1)

theorem readSegments_of_notMem {limit : Nat} {chars : List Char} (h : ':' ∉ chars) :
    readSegments limit false chars = ⟨[], false, chars⟩ := by
  cases limit with
  | zero => rfl
  | succ limit =>
      have hseparator : ∀ {α : Type} (reader : List Char → Option (α × List Char)),
          readSeparator ':' false reader chars = none := by
        intro α reader
        rw [readSeparator, if_neg Bool.false_ne_true, readGivenChar_of_notMem h]
        rfl
      rw [readSegments, hseparator, hseparator, ite_self]

/-- Without a colon there is no IPv6 address. -/
theorem readIpv6Addr_of_notMem {chars : List Char} (h : ':' ∉ chars) :
    readIpv6Addr chars = none := by
  cases hv4 : readIpv4Addr chars with
  | some read => exact readIpv6Addr_of_readIpv4Addr hv4
  | none =>
      have hsegments : ∃ segments, readSegments 8 true chars = segments ∧
          segments.segments.length ≤ 1 ∧ segments.endsInV4 = false ∧ segments.rest ⊆ chars := by
        rw [readSegments, if_pos (by decide), readSeparator, if_pos rfl, hv4, readSeparator,
          if_pos rfl]
        cases hsegment : readSegment chars with
        | none => exact ⟨_, rfl, Nat.zero_le 1, rfl, List.Subset.refl chars⟩
        | some read =>
            have hrest := (readFrom_readSegment hsegment).subset
            have hnotMem : ':' ∉ read.2 := fun hmem => h (hrest hmem)
            simp only [readSegments_of_notMem hnotMem]
            exact ⟨_, rfl, Nat.le_refl 1, rfl, hrest⟩
      obtain ⟨segments, hread, hlength, hv4, hrest⟩ := hsegments
      have hcolon := readGivenChar_of_notMem fun hmem => h (hrest hmem)
      unfold readIpv6Addr
      simp only [hread]
      rw [dif_neg (by omega), hv4, if_neg Bool.false_ne_true, hcolon]
      rfl

/-- A literal without a colon is an IPv4 address. -/
theorem IpAddr.parse_of_notMem {text : List Char} (h : ':' ∉ text) :
    IpAddr.parse text = (Ipv4Addr.parse text).map .v4 := by
  rw [IpAddr.parse, Ipv4Addr.parse, readIpv6Addr_of_notMem h]
  cases readIpv4Addr text with
  | none => rfl
  | some read =>
      obtain ⟨addr, rest⟩ := read
      cases rest with
      | nil => rfl
      | cons ch rest => rfl

theorem IpAddr.parse_of_v6 {text : List Char} {addr : Ipv6Addr}
    (h : Ipv6Addr.parse text = some addr) : IpAddr.parse text = some (.v6 addr) := by
  unfold Ipv6Addr.parse at h
  split at h
  next hread =>
    cases h
    rw [IpAddr.parse]
    cases hv4 : readIpv4Addr text with
    | none => rw [hread]; rfl
    | some read =>
        rw [readIpv6Addr_of_readIpv4Addr hv4] at hread
        cases hread
  next => cases h

/-! ## Writing an address -/

def Ipv4Addr.display (addr : Ipv4Addr) : String :=
  toString addr.a.toNat ++ "." ++ toString addr.b.toNat ++ "." ++ toString addr.c.toNat ++ "." ++
    toString addr.d.toNat

/-- A run of zeros: where it starts and its length. -/
structure ZeroRun where
  start : Nat
  length : Nat

/-- The first of the longest runs of zeros, given the longest one so far and the one
that goes on. -/
def longestZeros : Nat → ZeroRun → ZeroRun → List UInt16 → ZeroRun
  | _, longest, _, [] => longest
  | i, longest, current, segment :: segments =>
      if segment == 0 then
        let current : ZeroRun :=
          ⟨if current.length = 0 then i else current.start, current.length + 1⟩
        longestZeros (i + 1) (if longest.length < current.length then current else longest) current
          segments
      else longestZeros (i + 1) longest ⟨0, 0⟩ segments

/-- Segments in hexadecimal with colons between them. -/
def displaySegments (segments : List UInt16) : String :=
  ":".intercalate (segments.map fun segment => String.ofList (Nat.toDigits 16 segment.toNat))

def Ipv6Addr.display (addr : Ipv6Addr) : String :=
  match addr.segments with
  | [0, 0, 0, 0, 0, 0xFFFF, high, low] => "::ffff:" ++ (Ipv4Addr.ofSegments high low).display
  | segments =>
      let zeroes := longestZeros 0 ⟨0, 0⟩ ⟨0, 0⟩ segments
      if 1 < zeroes.length then
        displaySegments (segments.take zeroes.start) ++ "::" ++
          displaySegments (segments.drop (zeroes.start + zeroes.length))
      else displaySegments segments

def IpAddr.display : IpAddr → String
  | .v4 addr => addr.display
  | .v6 addr => addr.display

end HabitatGraph
