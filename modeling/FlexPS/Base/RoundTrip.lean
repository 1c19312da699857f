import FlexPS.Base.Serialization

/-! # Decoding undoes encoding

Every operator pair is a round trip of `Lib.Codec`: the reader takes exactly what its
writer appends. The law is proved once for each type constructor, from the law of its
parts, so it holds for every nesting.
-/

namespace FlexPS

open Codec

/-! ## The stream -/

namespace BinStream

theorem eq_of_fields {s s' : BinStream} (buffer : s.buffer = s'.buffer) (front : s.front = s'.front) :
    s = s' := by
  cases s with
  | mk b f le =>
      cases s' with
      | mk b' f' le' =>
          cases buffer
          cases front
          rfl

theorem pushBackBytes_nil (s : BinStream) : s.pushBackBytes [] = s :=
  eq_of_fields (List.append_nil _) rfl

theorem pushBackBytes_append (s : BinStream) (a b : List UInt8) :
    (s.pushBackBytes a).pushBackBytes b = s.pushBackBytes (a ++ b) :=
  eq_of_fields (List.append_assoc _ _ _) rfl

theorem remained_pushBackBytes (s : BinStream) (a : List UInt8) :
    (s.pushBackBytes a).remained = s.remained ++ a :=
  List.drop_append_of_le_length s.front_le

theorem length_remained (s : BinStream) : s.remained.length = s.size := List.length_drop

end BinStream

/-- `Codec.RoundTrip` on streams. -/
abbrev Undoes {α : Type} (write : Stream Unit) (read : Stream α) (P : α → Prop) : Prop :=
  RoundTrip BinStream.pushBackBytes BinStream.remained write read P

theorem emits_pushBackBytes (src : List UInt8) :
    Emits BinStream.pushBackBytes (pushBackBytes src) src := fun _ => rfl

theorem consumes_popFrontBytes {code : List UInt8} {sz : Nat} (length : code.length = sz) :
    Consumes BinStream.remained (popFrontBytes sz) code (code = ·) := by
  intro s rest starts
  have room : s.front + sz ≤ s.buffer.length := by
    have total := congrArg List.length starts
    rw [s.length_remained, List.length_append, BinStream.size] at total
    have := s.front_le
    omega
  refine ⟨code, ⟨s.buffer, s.front + sz, room⟩, ?_, rfl, ?_⟩
  · have taken : s.remained.take sz = code := by rw [starts, ← length, List.take_left]
    rw [← taken]
    exact dif_pos room
  · calc s.buffer.drop (s.front + sz) = s.remained.drop sz := List.drop_drop.symm
      _ = rest := by rw [starts, ← length, List.drop_left]

/-- A block of bytes that the reader can measure. -/
theorem undoes_block {src : List UInt8} {sz : Nat} (length : src.length = sz) :
    Undoes (pushBackBytes src) (popFrontBytes sz) (src = ·) :=
  ⟨src, emits_pushBackBytes src, consumes_popFrontBytes length⟩

/-! ## Sizes and scalars -/

theorem ofLittleEndian_littleEndian {width n : Nat} (small : n < 256 ^ width) :
    ofLittleEndian (littleEndian width n) = n := by
  induction width generalizing n with
  | zero =>
      have zero : n = 0 := by simpa using small
      exact zero.symm
  | succ width ih =>
      have rest : n / 256 < 256 ^ width := by
        rw [Nat.div_lt_iff_lt_mul (by decide)]
        rwa [Nat.pow_succ] at small
      rw [littleEndian, ofLittleEndian, ih rest, UInt8.toNat_ofNat']
      exact Nat.mod_add_div n 256

theorem length_littleEndian (width n : Nat) : (littleEndian width n).length = width := by
  induction width generalizing n with
  | zero => rfl
  | succ width ih => exact congrArg (· + 1) (ih _)

theorem undoes_size {len : Nat} (small : len < 2 ^ 64) : Undoes (writeSize len) readSize (len = ·) :=
  ⟨littleEndian 8 len, emits_pushBackBytes _,
    (consumes_popFrontBytes (length_littleEndian 8 len)).map fun bytes same => by
      rw [← same]
      exact (ofLittleEndian_littleEndian small).symm⟩

theorem undoes_bool (x : Bool) : Undoes (writeBool x) readBool (x = ·) :=
  ⟨[if x then 1 else 0], emits_pushBackBytes _,
    (consumes_popFrontBytes rfl).map fun bytes same => by
      rw [← same]
      cases x <;> rfl⟩

/-- A body after its size: the reader of the body knows the size. -/
theorem undoes_sized {α : Type} {len : Nat} (small : len < 2 ^ 31) {write : Stream Unit}
    (read : Nat → Stream α) {P : α → Prop} (body : Undoes write (read len) P) :
    Undoes (do writeSize len; write) (do let len ← readSize; read len) P := by
  obtain ⟨code, emits, consumes⟩ := body
  apply (undoes_size (small.trans (by decide))).bind BinStream.pushBackBytes_append
  exact ⟨code, emits, fun _ same => same ▸ consumes⟩

theorem undoes_string {x : List UInt8} (small : x.length < 2 ^ 31) :
    Undoes (writeString x) readString (x = ·) := undoes_sized small _ (undoes_block rfl)

/-! ## Arrays and nested streams -/

theorem length_flatten_of_width {width : Nat} {items : List (List UInt8)}
    (widths : ∀ item ∈ items, item.length = width) :
    items.flatten.length = items.length * width := by
  induction items with
  | nil => exact (Nat.zero_mul width).symm
  | cons item items ih =>
      rw [List.forall_mem_cons] at widths
      rw [List.flatten_cons, List.length_append, widths.1, ih widths.2, List.length_cons,
        Nat.succ_mul, Nat.add_comm]

theorem itemsOf_flatten {width : Nat} {items : List (List UInt8)}
    (widths : ∀ item ∈ items, item.length = width) :
    itemsOf width items.length items.flatten = items := by
  induction items with
  | nil => rfl
  | cons item items ih =>
      rw [List.forall_mem_cons] at widths
      rw [List.length_cons, itemsOf, List.flatten_cons, ← widths.1, List.take_left, List.drop_left,
        widths.1, ih widths.2]

theorem undoes_sArray {s : Scalar} {x : List (List UInt8)} (valid : (CppType.sArray s).Valid x) :
    Undoes (writeSArray x) (readSArray s.width) (x = ·) := by
  obtain ⟨small, widths⟩ := valid
  have length : x.flatten.length = x.length * s.width % 2 ^ 64 := by
    have fits : x.length * s.width ≤ 2 ^ 31 * 16 := Nat.mul_le_mul small.le s.narrow
    rw [length_flatten_of_width widths, Nat.mod_eq_of_lt (by omega)]
  obtain ⟨code, emits, consumes⟩ := undoes_block length
  refine undoes_sized small (fun size => do
    return itemsOf s.width size (← popFrontBytes (size * s.width % 2 ^ 64))) ⟨code, emits, ?_⟩
  exact consumes.map fun block same => by rw [← same, itemsOf_flatten widths]

theorem undoes_binStream {x : BinStream} (valid : CppType.binStream.Valid x) :
    Undoes (writeBin x) readBin (CppType.binStream.Same x) := by
  have body : Undoes (pushBackBytes x.remained)
      (loop (fun buffer => do return buffer ++ (← readScalar 1)) x.size []) (x.remained = ·) := by
    refine ⟨x.remained.flatMap fun byte => [byte], ?_, ?_⟩
    · rw [List.flatMap_singleton']
      exact emits_pushBackBytes _
    · rw [← x.length_remained]
      apply Consumes.loop rfl
      intro done byte rest acc _ same
      exact (consumes_popFrontBytes rfl).map fun bytes read => by rw [← same, ← read]
  obtain ⟨code, emits, consumes⟩ := body
  refine undoes_sized valid (fun len => do
    let buffer ← loop (fun buffer => do return buffer ++ (← readScalar 1)) len []
    return (⟨buffer, 0, Nat.zero_le _⟩ : BinStream)) ⟨code, emits, ?_⟩
  exact consumes.map fun _ same => same

/-! ## Pairs and containers -/

section Containers

variable {α β γ σ : Type}

theorem undoes_pair {writeFirst writeSecond : Stream Unit} {readFirst : Stream α}
    {readSecond : Stream β} {P : α → Prop} {Q : β → Prop} (first : Undoes writeFirst readFirst P)
    (second : Undoes writeSecond readSecond Q) :
    Undoes (do writeFirst; writeSecond) (readPair readFirst readSecond) fun p => P p.1 ∧ Q p.2 := by
  obtain ⟨code, emits, consumes⟩ := second
  apply first.bind BinStream.pushBackBytes_append
  exact ⟨code, emits, fun _ holds => consumes.map fun _ holds' => ⟨holds, holds'⟩⟩

theorem countInt_eq {len : Nat} (small : len < 2 ^ 31) : countInt len = pure () :=
  if_pos (Nat.le_of_lt_succ small)

/-- The items of a container after its size, read by a counted loop. -/
theorem undoes_items {write : α → Stream Unit} {read : Stream γ} {Same : α → γ → Prop}
    (next : σ → γ → σ) {items : List α} {Inv : List α → σ → Prop} {init : σ}
    (small : items.length < 2 ^ 31) (each : ∀ x ∈ items, Undoes (write x) read (Same x))
    (start : Inv [] init) (step : ∀ done x rest acc y, items = done ++ x :: rest → Inv done acc →
      Same x y → Inv (done ++ [x]) (next acc y)) :
    Undoes (do writeSize items.length; forM items write)
      (do
        let len ← readSize
        let acc ← loop (fun acc => do let y ← read; return next acc y) len init
        countInt len
        return acc) (Inv items) := by
  refine undoes_sized small (fun len => do
    let acc ← loop (fun acc => do let y ← read; return next acc y) len init
    countInt len
    return acc) ?_
  simp only [countInt_eq small, pure_bind, bind_pure]
  exact RoundTrip.loop BinStream.pushBackBytes_nil BinStream.pushBackBytes_append each start step

theorem undoes_vector {write : α → Stream Unit} {read : Stream β} {Same : α → β → Prop} {x : List α}
    (small : x.length < 2 ^ 31) (each : ∀ item ∈ x, Undoes (write item) read (Same item)) :
    Undoes (writeVector write x) (readVector read) (List.Forall₂ Same x) := by
  have items := undoes_items (fun v y => v ++ [y]) small each List.Forall₂.nil
    fun done item _ acc y _ inv same => List.rel_append inv (.cons same .nil)
  simpa only [writeVector, readVector, countInt_eq small, bind_pure, bind_pure_unit] using items

theorem mapInsert_of_less {less : α → α → Bool} {elem : α × β} {entries : List (α × β)}
    (above : ∀ entry ∈ entries, less entry.1 elem.1) :
    mapInsert less elem entries = entries ++ [elem] := by
  induction entries with
  | nil => rfl
  | cons entry entries ih =>
      rw [List.forall_mem_cons] at above
      rw [mapInsert, if_pos above.1, ih above.2, List.cons_append]

theorem exists_of_forall₂ {R : α → β → Prop} {xs : List α} {ys : List β}
    (related : List.Forall₂ R xs ys) {y : β} (member : y ∈ ys) : ∃ x ∈ xs, R x y := by
  induction related with
  | nil => cases member
  | cons head _ ih =>
      cases member with
      | head => exact ⟨_, List.mem_cons_self, head⟩
      | tail _ member =>
          obtain ⟨x, member, holds⟩ := ih member
          exact ⟨x, List.mem_cons_of_mem _ member, holds⟩

/-- The entries of a map, whose keys come back as they were: the loop inserts an entry into
a map that holds the entries before it. -/
theorem undoes_map {K V : CppType} {insert : K.Val × V.Val → List (K.Val × V.Val) → List (K.Val × V.Val)}
    (Inv : List (K.Val × V.Val) → List (K.Val × V.Val) → Prop) {x : List (K.Val × V.Val)}
    (small : x.length < 2 ^ 31)
    (each : ∀ entry ∈ x, Undoes (writePair K.write V.write entry) (readPair K.read V.read)
      ((CppType.pair K V).Same entry)) (start : Inv [] [])
    (step : ∀ done (entry : K.Val × V.Val) rest acc (y : K.Val × V.Val), x = done ++ entry :: rest → Inv done acc →
      (CppType.pair K V).Same entry y → Inv (done ++ [entry]) (insert y acc)) :
    Undoes (writeMap K.write V.write x) (readMap insert K.read V.read) (Inv x) :=
  undoes_items (fun map elem => insert elem map) small each start step

end Containers

/-! ## Types -/

/-- The law of a type. A type that can be the key of a map has no two representations of
one value. -/
structure Lawful (T : CppType) : Prop where
  undoes : ∀ x, T.Valid x → Undoes (T.write x) T.read (T.Same x)
  ordered : T.less.isSome → ∀ x y, T.Same x y → x = y
  hashed : T.equal.isSome → ∀ x y, T.Same x y → x = y

namespace Lawful

open CppType

theorem scalar (s : Scalar) : Lawful (scalar s) where
  undoes _ valid := undoes_block valid
  ordered _ _ _ same := same
  hashed _ _ _ same := same

theorem bool : Lawful bool where
  undoes x _ := undoes_bool x
  ordered _ _ _ same := same
  hashed _ _ _ same := same

theorem string : Lawful string where
  undoes _ valid := undoes_string valid
  ordered _ _ _ same := same
  hashed _ _ _ same := same

theorem sArray (s : Scalar) : Lawful (sArray s) where
  undoes _ valid := undoes_sArray valid
  ordered := nofun
  hashed := nofun

theorem binStream : Lawful binStream where
  undoes _ valid := undoes_binStream valid
  ordered := nofun
  hashed := nofun

variable {A B K V : CppType}

theorem pair_eq (a : A.less.isSome → ∀ x y, A.Same x y → x = y)
    (b : B.less.isSome → ∀ x y, B.Same x y → x = y) (ordered : (pair A B).less.isSome)
    (x y : (pair A B).Val) (same : (pair A B).Same x y) : x = y := by
  obtain ⟨less, some⟩ := Option.isSome_iff_exists.mp ordered
  obtain ⟨first, second, someFirst, someSecond, -⟩ := Option.map₂_eq_some_iff.mp some
  exact Prod.ext (a (Option.isSome_of_mem someFirst) _ _ same.1)
    (b (Option.isSome_of_mem someSecond) _ _ same.2)

theorem pair (a : Lawful A) (b : Lawful B) : Lawful (pair A B) where
  undoes x valid := undoes_pair (a.undoes x.1 valid.1) (b.undoes x.2 valid.2)
  ordered := pair_eq a.ordered b.ordered
  hashed := nofun

theorem list_eq {R : A.Val → A.Val → Prop} (exact : ∀ x y, R x y → x = y) {x y : List A.Val}
    (same : List.Forall₂ R x y) : x = y :=
  List.forall₂_eq_eq_eq ▸ same.imp exact

theorem vector (a : Lawful A) : Lawful (vector A) where
  undoes _ valid := undoes_vector valid.1 fun item member => a.undoes item (valid.2 item member)
  ordered some _ _ same := list_eq (a.ordered (Option.isSome_map.symm.trans some)) same
  hashed := nofun

theorem vectorBool : Lawful vectorBool where
  undoes := (vector bool).undoes
  ordered := (vector bool).ordered
  hashed _ _ _ same := list_eq (fun _ _ same => same) same

theorem map {less : K.Val → K.Val → Bool} (k : Lawful K) (v : Lawful V) (key : K.less = some less) :
    Lawful (map K V less) where
  undoes x valid := by
    obtain ⟨small, entries, sorted⟩ := valid
    refine undoes_map _ small (fun entry member => (pair k v).undoes entry (entries entry member))
      List.Forall₂.nil ?_
    intro done entry rest acc y split same sameEntry
    have exact := k.ordered (key ▸ rfl)
    have above : ∀ before ∈ acc, less before.1 y.1 := by
      intro before member
      obtain ⟨original, member, sameOriginal⟩ := exists_of_forall₂ same member
      rw [← exact _ _ sameOriginal.1, ← exact _ _ sameEntry.1]
      rw [split, List.pairwise_append] at sorted
      exact sorted.2.2 original member entry List.mem_cons_self
    rw [mapInsert_of_less above]
    exact List.rel_append same (.cons sameEntry .nil)
  ordered some _ _ same :=
    list_eq (A := CppType.pair K V) ((pair k v).ordered (Option.isSome_map.symm.trans some)) same
  hashed := nofun

theorem unorderedMap {equal : K.Val → K.Val → Bool} (k : Lawful K) (v : Lawful V)
    (key : K.equal = some equal) : Lawful (unorderedMap K V equal) where
  undoes x valid := by
    obtain ⟨small, entries, distinct⟩ := valid
    refine undoes_map (fun done acc => ∃ order, order.Perm done ∧
      List.Forall₂ (CppType.pair K V).Same order acc) small
      (fun entry member => (pair k v).undoes entry (entries entry member)) ⟨[], .nil, .nil⟩ ?_
    rintro done entry rest acc y split ⟨order, perm, same⟩ sameEntry
    have exact := k.hashed (key ▸ rfl)
    have new : ¬ acc.any (fun before => equal before.1 y.1) := by
      rw [List.any_eq_true]
      rintro ⟨before, member, found⟩
      obtain ⟨original, member, sameOriginal⟩ := exists_of_forall₂ same member
      rw [← exact _ _ sameOriginal.1, ← exact _ _ sameEntry.1] at found
      rw [split, List.pairwise_append] at distinct
      have differs := distinct.2.2 original (perm.mem_iff.mp member) entry List.mem_cons_self
      rw [differs] at found
      cases found
    rw [unorderedInsert, if_neg new]
    exact ⟨entry :: order, (perm.cons entry).trans (List.perm_append_singleton entry done).symm,
      .cons sameEntry same⟩
  ordered := nofun
  hashed := nofun

end Lawful

theorem Supported.lawful {T : CppType} (supported : Supported T) : Lawful T := by
  induction supported with
  | scalar s => exact .scalar s
  | bool => exact .bool
  | string => exact .string
  | sArray s => exact .sArray s
  | binStream => exact .binStream
  | pair _ _ a b => exact .pair a b
  | vector _ a => exact .vector a
  | vectorBool => exact .vectorBool
  | map _ _ key k v => exact .map k v key
  | unorderedMap _ _ key k v => exact .unorderedMap k v key

/-! ## Sequences -/

theorem undoes_all {types : List CppType} (lawful : ∀ T ∈ types, Lawful T) (values : Values types)
    (valid : ValidAll types values) :
    Undoes (writeAll types values) (readAll types) (SameAll types values) := by
  induction types with
  | nil => exact ⟨[], .pure BinStream.pushBackBytes_nil, .pure trivial⟩
  | cons T types ih =>
      obtain ⟨x, values⟩ := values
      rw [List.forall_mem_cons] at lawful
      exact undoes_pair (lawful.1.undoes x valid.1) (ih lawful.2 values valid.2)

/-- The unread bytes of a stream come back first, then every value that was written as it
was, and then exactly what was written afterwards. -/
theorem decoding_undoes_encoding {types : List CppType} (supported : ∀ T ∈ types, Supported T)
    (values : Values types) (valid : ValidAll types values) (stream : BinStream)
    (after : List UInt8) :
    ∃ written, (writeAll types values).run stream = .ok ((), written) ∧
    ∃ rest, (popFrontBytes stream.size).run (written.pushBackBytes after) =
      .ok (stream.remained, rest) ∧
    ∃ values' final, (readAll types).run rest = .ok (values', final) ∧
      SameAll types values values' ∧ final.remained = after := by
  obtain ⟨code, emits, consumes⟩ := undoes_all (fun T member => (supported T member).lawful) values valid
  refine ⟨stream.pushBackBytes code, emits stream, ?_⟩
  have starts : ((stream.pushBackBytes code).pushBackBytes after).remained =
      stream.remained ++ (code ++ after) := by
    rw [BinStream.pushBackBytes_append, BinStream.remained_pushBackBytes]
  obtain ⟨_, rest, popped, rfl, starts⟩ :=
    consumes_popFrontBytes stream.length_remained _ _ starts
  exact ⟨rest, popped, consumes rest after starts⟩

/-- A map from strings to bit vectors, then a nested stream with one byte read already. -/
theorem decoding_undoes_encoding_mapThenBin :
    let types := [CppType.map .string .vectorBool (lexLess fun x y => decide (x < y)), .binStream]
    let values : Values types := ([([97], [true, false]), ([97, 98], [])], ⟨[1, 2, 3], 1, by decide⟩, ())
    ∃ written, (writeAll types values).run ⟨[7], 0, by decide⟩ = .ok ((), written) ∧
    ∃ rest, (popFrontBytes 1).run (written.pushBackBytes [9]) = .ok ([7], rest) ∧
    ∃ values' final, (readAll types).run rest = .ok (values', final) ∧
      SameAll types values values' ∧ final.remained = [9] := by
  apply decoding_undoes_encoding
  · intro T member
    simp only [List.mem_cons, List.not_mem_nil, or_false] at member
    obtain rfl | rfl := member
    · exact .map .string .vectorBool rfl
    · exact .binStream
  · have bits : ∀ item ∈ ([true, false] : List Bool), CppType.bool.Valid item := fun _ _ => trivial
    refine ⟨⟨by decide, ?_, ?_⟩, show 2 < 2 ^ 31 by decide, trivial⟩
    · rintro entry (_ | ⟨_, _ | ⟨_, ⟨⟩⟩⟩)
      · exact ⟨show 1 < 2 ^ 31 by decide, show 2 < 2 ^ 31 by decide, bits⟩
      · exact ⟨show 2 < 2 ^ 31 by decide, show 0 < 2 ^ 31 by decide, nofun⟩
    · simp [lexLess]

end FlexPS
