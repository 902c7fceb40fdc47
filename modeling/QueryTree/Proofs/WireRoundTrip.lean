import Mathlib
import QueryTree.Postgres.Wire
import QueryTree.Proofs.DayCount

/-!
# Parameters are read back from their bytes

What is sent as a parameter of a type comes back when its bytes are read as a cell of that type. The
encodings are taken one by one: bytes of numbers (`Bytes.toNat_ofNat`, `Bytes.toInt_ofInt`), text
(`Bytes.toText?_ofText`), microseconds of times and timestamps (`Time.ofMicroseconds?_nanoseconds`,
`DateTime.ofMicroseconds?_microseconds`). `Carried` joins sending and reading for one value and one
type, and `standard_carries` says it of all scalar types except single precision, where a double is
rounded.

Only integers can be refused: a parameter of 16 or 32 bits takes exactly the integers of its range.
Every timestamp can be sent (`DateTime.microseconds_bounds`), also one with a fraction of a
microsecond, although the fraction is lost.
-/

namespace QueryTree

/-! ### Bytes of numbers and text -/

namespace Bytes

@[simp] theorem length_ofNat (width n : Nat) : (ofNat width n).length = width := by
  induction width generalizing n with
  | zero => rfl
  | succ width ih => simp [ofNat, ih]

@[simp] theorem length_ofInt (width : Nat) (n : Int) : (ofInt width n).length = width :=
  length_ofNat width _

/-- A further byte is the least significant one. -/
theorem toNat_concat (data : List UInt8) (b : UInt8) :
    toNat (data ++ [b]) = toNat data * 256 + b.toNat := by
  simp [toNat]

/-- The bytes of a number are read back, less what does not fit. -/
theorem toNat_ofNat (width n : Nat) : toNat (ofNat width n) = n % Nat.pow 256 width := by
  induction width generalizing n with
  | zero => simp [ofNat, toNat, Nat.mod_one]
  | succ width ih =>
    have hbyte : (UInt8.ofNat (n % 256)).toNat = n % 256 := by simp
    have hpow : Nat.pow 256 (width + 1) = 256 * Nat.pow 256 width := by
      rw [Nat.mul_comm]
      rfl
    rw [ofNat, toNat_concat, ih, hbyte, hpow, Nat.mod_mul]
    omega

/-- Two's complement is read back, for a number in range. -/
theorem toInt_ofInt {width : Nat} {n : Int} (hlow : -(Nat.pow 256 width : Int) ≤ n * 2)
    (hhigh : n * 2 < Nat.pow 256 width) : toInt (ofInt width n) = n := by
  have hpos : (0 : Int) < Nat.pow 256 width := by
    exact_mod_cast Nat.pow_pos (by decide : 0 < 256)
  have hmod : (toNat (ofInt width n) : Int) = n % Nat.pow 256 width := by
    have hnonneg := Int.emod_nonneg n (Int.ne_of_gt hpos)
    have hlt := Int.emod_lt_of_pos n hpos
    rw [ofInt, toNat_ofNat, Nat.mod_eq_of_lt (by omega)]
    omega
  rw [toInt, length_ofInt, hmod, Int.emod_bmod]
  exact Int.bmod_eq_of_le_mul_two hlow hhigh

/-- The bytes of an array are read from its data, in order. -/
theorem toList_loop (bytes : ByteArray) (i : Nat) (read : List UInt8) :
    ByteArray.toList.loop bytes i read = read.reverse ++ bytes.data.toList.drop i := by
  fun_induction ByteArray.toList.loop bytes i read with
  | case1 i read h ih =>
    rw [ih, List.drop_eq_getElem_cons (i := i) (by simpa using h)]
    simp [ByteArray.get!, h]
  | case2 i read h =>
    have hend : bytes.data.toList.length ≤ i := by simpa using h
    simp [List.drop_eq_nil_of_le hend]

/-- The bytes of a text are valid, and read as the text. -/
theorem toText?_ofText (s : String) : toText? (ofText s) = some s := by
  have hlist : s.toByteArray.toList = s.toByteArray.data.toList := by
    simp [ByteArray.toList, toList_loop]
  have hbytes : ByteArray.mk s.toUTF8.toList.toArray = s.toByteArray := by
    simp [String.toUTF8, hlist]
  unfold toText? ofText
  rw [hbytes, String.fromUTF8?, dif_pos s.isValidUTF8]
  rfl

end Bytes

/-! ### Microseconds -/

theorem int64_bounds : Int64.minValue.toInt = -9223372036854775808 ∧
    Int64.maxValue.toInt = 9223372036854775807 := by
  decide

/-- A whole number of microseconds, and no leap second. -/
def Time.IsExact (t : Time) : Prop := t.nanosecond < 1000000000 ∧ t.nanosecond % 1000 = 0

/-- A time of whole microseconds comes back from their number. -/
theorem Time.ofMicroseconds?_nanoseconds {t : Time} (h : t.IsExact) :
    Time.ofMicroseconds? (t.nanoseconds / 1000) = some t := by
  obtain ⟨hleap, hwhole⟩ := h
  have hlt := t.second_lt
  have hcount : ((t.nanoseconds : Int) / 1000).fmod 86400000000 =
      ((t.second * 1000000 + t.nanosecond / 1000 : Nat) : Int) := by
    rw [Int.fmod_eq_emod_of_nonneg _ (by decide), Time.nanoseconds]
    omega
  have hsecond : (t.second * 1000000 + t.nanosecond / 1000) / 1000000 = t.second := by omega
  have hnanosecond :
      (t.second * 1000000 + t.nanosecond / 1000) % 1000000 * 1000 = t.nanosecond := by
    omega
  unfold ofMicroseconds? of?
  simp only [hcount, Int.toNat_natCast, hsecond, hnanosecond]
  exact dif_pos ⟨t.second_lt, t.nanosecond_lt⟩

namespace DateTime

/-- A timestamp is read as a day and a time of it. -/
theorem ofMicroseconds?_eq (n : Int) :
    ofMicroseconds? n = (do
      let date ← Date.ofDay? (n.fdiv 86400000000)
      let time ← Time.ofMicroseconds? n
      return ⟨date, time⟩) := rfl

/-- The microseconds of a timestamp are those of its days and of its time. -/
theorem microseconds_of_isExact {dt : DateTime} (h : dt.time.IsExact) :
    dt.microseconds = dt.date.day * 86400000000 + dt.time.nanoseconds / 1000 := by
  have hwhole : dt.nanoseconds =
      (dt.date.day * 86400000000 + dt.time.nanoseconds / 1000) * 1000 := by
    have := h.2
    unfold nanoseconds Time.nanoseconds
    omega
  rw [microseconds, hwhole, Int.mul_tdiv_cancel _ (by decide)]

/-- A timestamp of whole microseconds comes back from their number. -/
theorem ofMicroseconds?_microseconds {dt : DateTime} (h : dt.time.IsExact) :
    ofMicroseconds? dt.microseconds = some dt := by
  have hsecond := dt.time.second_lt
  have hnanosecond := h.1
  have hday : dt.microseconds.fdiv 86400000000 = dt.date.day := by
    rw [microseconds_of_isExact h, Int.fdiv_eq_ediv_of_nonneg _ (by decide), Time.nanoseconds]
    omega
  have htime : Time.ofMicroseconds? dt.microseconds = some dt.time := by
    rw [← Time.ofMicroseconds?_nanoseconds h]
    unfold Time.ofMicroseconds?
    rw [microseconds_of_isExact h, Int.fmod_eq_emod_of_nonneg _ (by decide),
      Int.fmod_eq_emod_of_nonneg _ (by decide), Int.add_comm, Int.add_mul_emod_self_right]
  rw [ofMicroseconds?_eq, hday, htime, Date.ofDay?_day]
  rfl

/-- Every timestamp fits into 64 bits, whatever its fraction of a second. -/
theorem microseconds_bounds (dt : DateTime) :
    Int64.minValue.toInt ≤ dt.microseconds ∧ dt.microseconds ≤ Int64.maxValue.toInt := by
  have hfirst := dt.date.first_le
  have hlast := dt.date.le_last
  have hsecond := dt.time.second_lt
  have hnanosecond := dt.time.nanosecond_lt
  have hsign : Int.sign 1000 = 1 := rfl
  unfold Calendar.firstDay at hfirst
  unfold Calendar.lastDay at hlast
  rw [microseconds, Int.tdiv_eq_ediv, nanoseconds, Time.nanoseconds, int64_bounds.1,
    int64_bounds.2]
  split <;> omega

theorem encodeTimestamp_eq (dt : DateTime) :
    Bound.encodeTimestamp dt = .ok (some (Bytes.ofInt 8 dt.microseconds)) :=
  if_pos dt.microseconds_bounds

end DateTime

/-! ### Sending and reading one value -/

namespace Value

/-- The values that parameters of a scalar type are given. -/
def Matches (v : Value) : LogicalType → Prop
  | .bool => ∃ b, v = .bool b
  | .int16 | .int32 | .int64 => ∃ n, v = .int n
  | .float32 | .float64 => ∃ x, v = .float x
  | .string => ∃ s, v = .text s
  | .bytes => ∃ data, v = .bytes data
  | .date => ∃ d, v = .date d
  | .time => ∃ t, v = .time t ∧ t.IsExact
  | .dateTime => ∃ dt, v = .dateTime dt ∧ dt.time.IsExact
  | .record _ | .row _ | .sequence _ | .queryable _ | .provider => False

/-- An integer is in the range of an integer type. Nothing is asked of other values and types. -/
def FitsIn (v : Value) (t : PgType) : Prop :=
  match v, t with
  | .int n, .int2 => -32768 ≤ n.toInt ∧ n.toInt ≤ 32767
  | .int n, .int4 => -2147483648 ≤ n.toInt ∧ n.toInt ≤ 2147483647
  | .int n, .int8 => -9223372036854775808 ≤ n.toInt ∧ n.toInt ≤ 9223372036854775807
  | _, _ => True

end Value

/-- A parameter of the type takes the value exactly when it is in range, and a cell of the type with
the bytes that were sent reads as the value. -/
structure Carried (t : PgType) (v : Value) : Prop where
  sent_iff : (∃ b data, Bound.ofValue v t = .ok b ∧ b.encode t = .ok (some data)) ↔ v.FitsIn t
  read_back : ∀ b data, Bound.ofValue v t = .ok b → b.encode t = .ok data → t.decode data = v

/-- A value in range is carried if it is sent and its bytes read back as it. -/
theorem carried_of_encode {t : PgType} {v : Value} (b : Bound) (data : List UInt8)
    (hfits : v.FitsIn t) (hbound : Bound.ofValue v t = .ok b)
    (hencode : b.encode t = .ok (some data)) (hdecode : t.decode? data = some v) :
    Carried t v := by
  refine ⟨⟨fun _ => hfits, fun _ => ⟨b, data, hbound, hencode⟩⟩, ?_⟩
  intro b' data' hbound' hencode'
  rw [hbound] at hbound'
  obtain rfl := Except.ok.inj hbound'
  rw [hencode] at hencode'
  obtain rfl := Except.ok.inj hencode'
  rw [PgType.decode, Option.bind_some, hdecode]
  rfl

/-- A value out of range is carried in that it is refused. -/
theorem carried_of_error {t : PgType} {v : Value} {fault : Fault} (hfits : ¬ v.FitsIn t)
    (hbound : Bound.ofValue v t = .error fault) : Carried t v := by
  constructor
  · constructor
    · rintro ⟨b, data, hb, -⟩
      rw [hbound] at hb
      cases hb
    · intro h
      exact absurd h hfits
  · intro b data hb
    rw [hbound] at hb
    cases hb

/-! ### Integers -/

/-- An integer in the range is narrowed to itself. -/
theorem narrow_of_mem {low high : Int} {n : Int64} (h : low ≤ n.toInt ∧ n.toInt ≤ high) :
    Bound.narrow low high n = .ok n.toInt := by
  rw [Bound.narrow, if_neg (by omega), if_neg (by omega)]

/-- An integer out of the range is refused. -/
theorem exists_narrow_eq_error {low high : Int} {n : Int64}
    (h : ¬ (low ≤ n.toInt ∧ n.toInt ≤ high)) :
    ∃ fault, Bound.narrow low high n = .error fault := by
  unfold Bound.narrow
  by_cases hhigh : high < n.toInt
  · exact ⟨_, if_pos hhigh⟩
  · rw [if_neg hhigh, if_pos (by omega)]
    exact ⟨_, rfl⟩

/-- A type with a narrower form for integers carries them, if the form does within its bounds. -/
theorem carried_narrowed {t : PgType} {low high : Int} (form : Int → Bound)
    (data : Int → List UInt8)
    (hfits : ∀ n : Int64, (Value.int n).FitsIn t ↔ low ≤ n.toInt ∧ n.toInt ≤ high)
    (hvalue : ∀ n, Bound.ofValue (.int n) t = (do return form (← Bound.narrow low high n)))
    (hencode : ∀ n, low ≤ n ∧ n ≤ high → (form n).encode t = .ok (some (data n)))
    (hdecode : ∀ n, low ≤ n ∧ n ≤ high → t.decode? (data n) = some (.int (Int64.ofInt n)))
    (n : Int64) : Carried t (.int n) := by
  by_cases h : low ≤ n.toInt ∧ n.toInt ≤ high
  · refine carried_of_encode (form n.toInt) (data n.toInt) ((hfits n).2 h) ?_ (hencode _ h) ?_
    · rw [hvalue, narrow_of_mem h]
      rfl
    · rw [hdecode _ h, Int64.ofInt_toInt]
  · obtain ⟨fault, hfault⟩ := exists_narrow_eq_error h
    have hvalue' : Bound.ofValue (.int n) t = .error fault := by
      rw [hvalue, hfault]
      rfl
    exact carried_of_error (fun hfits' => h ((hfits n).1 hfits')) hvalue'

/-- An integer written to a width has that width. -/
theorem ofLength_ofInt (width : Nat) (n : Int) :
    PgType.ofLength width (Bytes.ofInt width n) = some (Bytes.ofInt width n) :=
  if_pos (Bytes.length_ofInt width n)

/-- A small integer is carried if it has 16 bits. -/
theorem carried_int2 (n : Int64) : Carried .int2 (.int n) := by
  refine carried_narrowed (fun k => .int2 (Int16.ofInt k)) (Bytes.ofInt 2)
    (fun _ => Iff.rfl) (fun _ => rfl) (fun k hk => ?_) (fun k hk => ?_) n
  · have hread : (Int16.ofInt k).toInt = k := Int16.toInt_ofInt_of_le hk.1 (by omega)
    simp only [Bound.encode, hread]
    rfl
  · have hread : Bytes.toInt (Bytes.ofInt 2 k) = k :=
      Bytes.toInt_ofInt (by simp; omega) (by simp; omega)
    simp [PgType.decode?, ofLength_ofInt, hread]

/-- An integer is carried if it has 32 bits. -/
theorem carried_int4 (n : Int64) : Carried .int4 (.int n) := by
  refine carried_narrowed (fun k => .int4 (Int32.ofInt k)) (Bytes.ofInt 4)
    (fun _ => Iff.rfl) (fun _ => rfl) (fun k hk => ?_) (fun k hk => ?_) n
  · have hread : (Int32.ofInt k).toInt = k := Int32.toInt_ofInt_of_le hk.1 (by omega)
    simp only [Bound.encode, hread]
    rfl
  · have hread : Bytes.toInt (Bytes.ofInt 4 k) = k :=
      Bytes.toInt_ofInt (by simp; omega) (by simp; omega)
    simp [PgType.decode?, ofLength_ofInt, hread]

/-- Eight bytes hold what 64 bits hold. -/
theorem toInt_ofInt_eight {n : Int}
    (h : Int64.minValue.toInt ≤ n ∧ n ≤ Int64.maxValue.toInt) :
    Bytes.toInt (Bytes.ofInt 8 n) = n := by
  rw [int64_bounds.1, int64_bounds.2] at h
  exact Bytes.toInt_ofInt (by simp; omega) (by simp; omega)

/-- Every 64-bit integer is carried. -/
theorem carried_int8 (n : Int64) : Carried .int8 (.int n) := by
  have hbounds : Int64.minValue.toInt ≤ n.toInt ∧ n.toInt ≤ Int64.maxValue.toInt :=
    ⟨n.minValue_le_toInt, n.toInt_le⟩
  refine carried_of_encode (.int8 n) (Bytes.ofInt 8 n.toInt) hbounds rfl rfl ?_
  simp [PgType.decode?, ofLength_ofInt, toInt_ofInt_eight hbounds]

/-! ### The other types -/

namespace PgType

theorem decode?_date (data : List UInt8) :
    decode? .date data = (ofLength 4 data).bind fun cell =>
      (Date.ofDay? (Bytes.toInt cell)).bind fun d => some (.date d) := rfl

theorem decode?_time (data : List UInt8) :
    decode? .time data = (ofLength 8 data).bind fun cell =>
      (Time.ofMicroseconds? (Bytes.toInt cell)).bind fun t => some (.time t) := rfl

theorem decode?_timestamp (data : List UInt8) :
    decode? .timestamp data = (ofLength 8 data).bind fun cell =>
      (DateTime.ofMicroseconds? (Bytes.toInt cell)).bind fun dt => some (.dateTime dt) := rfl

end PgType

/-- Every truth value is carried. -/
theorem carried_bool (b : Bool) : Carried .bool (.bool b) := by
  refine carried_of_encode (.bool b) [if b then 1 else 0] trivial rfl rfl ?_
  cases b <;> rfl

/-- Every double is carried, bit by bit. -/
theorem carried_float8 (x : Float) : Carried .float8 (.float x) := by
  refine carried_of_encode (.float8 x) (Bytes.ofNat 8 x.toBits.toNat) trivial rfl rfl ?_
  have hlength : PgType.ofLength 8 (Bytes.ofNat 8 x.toBits.toNat) =
      some (Bytes.ofNat 8 x.toBits.toNat) := if_pos (Bytes.length_ofNat 8 _)
  have hbits : UInt64.ofNat (Bytes.toNat (Bytes.ofNat 8 x.toBits.toNat)) = x.toBits := by
    rw [Bytes.toNat_ofNat, Nat.mod_eq_of_lt x.toBits.toNat_lt, UInt64.ofNat_toNat]
  simp [PgType.decode?, hlength, hbits, Float.ofBits_toBits]

/-- Every text is carried. -/
theorem carried_varchar (s : String) : Carried .varchar (.text s) := by
  refine carried_of_encode (.text s) (Bytes.ofText s) trivial rfl rfl ?_
  simp [PgType.decode?, Bytes.toText?_ofText]

/-- Every byte string is carried. -/
theorem carried_bytea (data : List UInt8) : Carried .bytea (.bytes data) :=
  carried_of_encode (.bytea data) data trivial rfl rfl rfl

/-- Every date is carried. -/
theorem carried_date (d : Date) : Carried .date (.date d) := by
  have hfirst := d.first_le
  have hlast := d.le_last
  unfold Calendar.firstDay at hfirst
  unfold Calendar.lastDay at hlast
  have hread : Bytes.toInt (Bytes.ofInt 4 d.day) = d.day :=
    Bytes.toInt_ofInt (by simp; omega) (by simp; omega)
  refine carried_of_encode (.date d) (Bytes.ofInt 4 d.day) trivial rfl rfl ?_
  rw [PgType.decode?_date, ofLength_ofInt, Option.bind_some, hread, Date.ofDay?_day,
    Option.bind_some]

/-- A time of whole microseconds is carried. -/
theorem carried_time {t : Time} (h : t.IsExact) : Carried .time (.time t) := by
  have hsecond := t.second_lt
  have hnanosecond := t.nanosecond_lt
  have hread : Bytes.toInt (Bytes.ofInt 8 (t.nanoseconds / 1000)) = t.nanoseconds / 1000 := by
    unfold Time.nanoseconds
    exact Bytes.toInt_ofInt (by simp; omega) (by simp; omega)
  refine carried_of_encode (.time t) (Bytes.ofInt 8 (t.nanoseconds / 1000)) trivial
    rfl rfl ?_
  rw [PgType.decode?_time, ofLength_ofInt, Option.bind_some, hread,
    Time.ofMicroseconds?_nanoseconds h, Option.bind_some]

/-- A timestamp of whole microseconds is carried. -/
theorem carried_timestamp {dt : DateTime} (h : dt.time.IsExact) :
    Carried .timestamp (.dateTime dt) := by
  refine carried_of_encode (.timestamp dt) _ trivial rfl dt.encodeTimestamp_eq ?_
  rw [PgType.decode?_timestamp, ofLength_ofInt, Option.bind_some,
    toInt_ofInt_eight dt.microseconds_bounds, DateTime.ofMicroseconds?_microseconds h,
    Option.bind_some]

/-! ### The standard types -/

/-- The standard type system has a parameter type for each scalar type. Apart from single precision
that type carries all values of the scalar type: those in range are sent and read back, and only
integers can be out of range. Every timestamp can be sent. The dates are the days of the calendar in
the years -262143 to 262142. -/
theorem standard_carries :
    ∃ m, TypeMap.ofSystem .standard = .ok m ∧
      (∀ logical ∈ LogicalType.scalars, logical ≠ .float32 →
        ∃ t, m.parameterType? logical = some t ∧ ∀ v : Value, v.Matches logical → Carried t v) ∧
      (∀ dt : DateTime, ∃ data, (Bound.timestamp dt).encode .timestamp = .ok (some data) ∧
        (Bound.timestamptz dt).encode .timestamptz = .ok (some data)) ∧
      (∀ year month day, (∃ d, Date.ofYmd? year month day = some d ∧ d.ymd = (year, month, day)) ↔
        Calendar.IsDay year month day ∧ -262143 ≤ year ∧ year ≤ 262142) ∧
      ∀ d : Date, Date.ofYmd? d.ymd.1 d.ymd.2.1 d.ymd.2.2 = some d := by
  refine ⟨_, rfl, ?_, fun dt => ⟨_, dt.encodeTimestamp_eq, dt.encodeTimestamp_eq⟩,
    Date.exists_ofYmd?_iff, Date.ofYmd?_ymd⟩
  intro logical hscalar hfloat32
  simp only [LogicalType.scalars, List.mem_cons, List.not_mem_nil, or_false] at hscalar
  rcases hscalar with
    rfl | rfl | rfl | rfl | rfl | rfl | rfl | rfl | rfl | rfl | rfl
  case inr.inr.inr.inr.inl => exact absurd rfl hfloat32
  all_goals refine ⟨_, rfl, ?_⟩
  · rintro _ ⟨b, rfl⟩
    exact carried_bool b
  · rintro _ ⟨n, rfl⟩
    exact carried_int2 n
  · rintro _ ⟨n, rfl⟩
    exact carried_int4 n
  · rintro _ ⟨n, rfl⟩
    exact carried_int8 n
  · rintro _ ⟨x, rfl⟩
    exact carried_float8 x
  · rintro _ ⟨s, rfl⟩
    exact carried_varchar s
  · rintro _ ⟨data, rfl⟩
    exact carried_bytea data
  · rintro _ ⟨d, rfl⟩
    exact carried_date d
  · rintro _ ⟨t, rfl, ht⟩
    exact carried_time ht
  · rintro _ ⟨dt, rfl, hdt⟩
    exact carried_timestamp hdt

/-- The first microsecond after the first instant there is is sent and read back; so is the least
16-bit integer, and the integer after the greatest one is refused. -/
theorem standard_carries_edges :
    ∃ m, TypeMap.ofSystem .standard = .ok m ∧
      m.parameterType? .dateTime = some .timestamp ∧
      (∃ dt : DateTime, (dt.date.day = Calendar.firstDay ∧ dt.time.second = 0 ∧
        dt.time.nanosecond = 1000) ∧ dt.time.IsExact ∧ Carried .timestamp (.dateTime dt)) ∧
      m.parameterType? .int16 = some .int2 ∧ (Value.int (-32768)).FitsIn .int2 ∧
      Carried .int2 (.int (-32768)) ∧
      ¬ ∃ b data, Bound.ofValue (.int 32768) .int2 = .ok b ∧
        b.encode .int2 = .ok (some data) := by
  obtain ⟨m, hm, hcarries, -⟩ := standard_carries
  obtain rfl := Except.ok.inj hm
  obtain ⟨t, ht, hdateTime⟩ := hcarries .dateTime (by decide) (by decide)
  obtain ⟨u, hu, hint16⟩ := hcarries .int16 (by decide) (by decide)
  obtain rfl : PgType.timestamp = t := Option.some.inj ht
  obtain rfl : PgType.int2 = u := Option.some.inj hu
  let earliest : DateTime :=
    ⟨⟨Calendar.firstDay, by decide, by decide⟩, ⟨0, 1000, by decide, by decide⟩⟩
  have hexact : earliest.time.IsExact := ⟨by decide, by decide⟩
  refine ⟨_, rfl, rfl, ⟨earliest, ⟨rfl, rfl, rfl⟩, hexact, hdateTime _ ⟨earliest, rfl, hexact⟩⟩,
    rfl, ⟨by decide, by decide⟩, hint16 _ ⟨-32768, rfl⟩, ?_⟩
  rw [(hint16 _ ⟨32768, rfl⟩).sent_iff]
  show ¬ (-32768 ≤ (32768 : Int64).toInt ∧ (32768 : Int64).toInt ≤ 32767)
  decide

end QueryTree
