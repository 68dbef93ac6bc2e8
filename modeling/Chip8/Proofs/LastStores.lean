import Chip8.Memory.Request

/-!
A memory under any sequence of requests. Whether a request is accepted depends on its numbers
alone, as whole numbers that do not wrap; a request that is refused leaves memory as it was, and
each byte is the one that the last accepted store put there.
-/

namespace Chip8.Memory

variable {memory : Memory} {request : Request}

/-! ### What a request means -/

namespace Request

def Fits : Request → Prop
  | .clear => True
  | .loadGlyphs base => base.toNat + 80 ≤ 0x1000
  | .loadRegion _ data => data.length ≤ 3584
  | .viewRegion _ => True
  | .readByte address => address.toNat < 0x1000
  | .readRange start stop => start.toNat ≤ stop.toNat ∧ stop.toNat ≤ 0x1000
  | .readWord address => address.toNat + 2 ≤ 0x1000
  | .storeByte address _ => address.toNat < 0x1000
  | .storeRange start stop _ => start.toNat ≤ stop.toNat ∧ stop.toNat ≤ 0x1000

instance : (request : Request) → Decidable request.Fits
  | .clear => inferInstanceAs (Decidable True)
  | .loadGlyphs _ => inferInstanceAs (Decidable (_ ≤ _))
  | .loadRegion _ _ => inferInstanceAs (Decidable (_ ≤ _))
  | .viewRegion _ => inferInstanceAs (Decidable True)
  | .readByte _ => inferInstanceAs (Decidable (_ < _))
  | .readRange _ _ => inferInstanceAs (Decidable (_ ∧ _))
  | .readWord _ => inferInstanceAs (Decidable (_ ≤ _))
  | .storeByte _ _ => inferInstanceAs (Decidable (_ < _))
  | .storeRange _ _ _ => inferInstanceAs (Decidable (_ ∧ _))

/-- The byte that the request puts at an address, if it covers the address. -/
def puts? (address : Nat) : Request → Option UInt8
  | .clear => some 0
  | .loadGlyphs base =>
      if base.toNat ≤ address ∧ address < base.toNat + 80 then
        some (Glyphs.bytes.getD (address - base.toNat) 0)
      else none
  | .loadRegion _ data =>
      if 0x200 ≤ address ∧ address < 0x200 + data.length then
        some (data.getD (address - 0x200) 0)
      else none
  | .storeByte place value => if address = place.toNat then some value else none
  | .storeRange start stop contents =>
      if start.toNat ≤ address ∧ address < stop.toNat then
        some (contents (address - start.toNat))
      else none
  | _ => none

end Request

/-- The reply that tells what the bytes of a memory are. -/
def Tells (memory : Memory) : Request → Reply → Prop
  | .viewRegion _, reply =>
      reply = .bytes ((List.range 3584).map fun offset => memory.byte (0x200 + offset))
  | .readByte address, reply => reply = .byte (memory.byte address.toNat)
  | .readRange start stop, reply =>
      reply = .bytes ((List.range (stop.toNat - start.toNat)).map fun offset =>
        memory.byte (start.toNat + offset))
  | .readWord address, reply =>
      ∃ word : UInt16, reply = .word word ∧
        word.toNat =
          256 * (memory.byte address.toNat).toNat + (memory.byte (address.toNat + 1)).toNat
  | _, reply => reply = .done

/-- How a memory serves a request: it is accepted exactly if it stays inside memory, and then each
byte that it covers is replaced and the reply tells the truth; otherwise nothing changes. -/
structure Serves (memory : Memory) (request : Request) : Prop where
  accepted_iff : (memory.serve request).2.isSome = true ↔ request.Fits
  refused : ¬ request.Fits → memory.serve request = (memory, none)
  told : ∀ reply, (memory.serve request).2 = some reply → memory.Tells request reply
  byte : request.Fits → ∀ address,
    (memory.serve request).1.byte address = (request.puts? address).getD (memory.byte address)

/-! ### Blocks and their ends -/

/-- An addition that wraps is refused, and one that does not is exact. -/
theorem endOf?_eq_some_iff {start length stop : UInt64} :
    endOf? start length = some stop ↔ stop.toNat = start.toNat + length.toNat := by
  have sum : (start + length).toNat = (start.toNat + length.toNat) % 2 ^ 64 :=
    UInt64.toNat_add start length
  have ordered : start ≤ start + length ↔ start.toNat ≤ (start + length).toNat :=
    UInt64.le_iff_toNat_le
  have startBound := start.toNat_lt
  have lengthBound := length.toNat_lt
  have stopBound := stop.toNat_lt
  by_cases unwrapped : start ≤ start + length
  · have kept := ordered.mp unwrapped
    rw [endOf?, if_pos unwrapped, Option.some.injEq, ← UInt64.toNat_inj]
    omega
  · have lost := mt ordered.mpr unwrapped
    rw [endOf?, if_neg unwrapped]
    refine iff_of_false (fun found => ?_) (by omega)
    cases found

theorem inside_block_iff {start length : Nat} :
    Inside start (start + length) ↔ start + length ≤ 0x1000 := by
  simp only [Inside, size, Nat.le_add_right, true_and]

theorem block?_eq {α : Type} (start length : UInt64) (found : Nat → α) :
    ((endOf? start length).bind fun stop =>
      if Inside start.toNat stop.toNat then some (found (stop.toNat - start.toNat)) else none) =
      if Inside start.toNat (start.toNat + length.toNat) then some (found length.toNat)
      else none := by
  cases ends : endOf? start length with
  | none =>
      have beyond : ¬ Inside start.toNat (start.toNat + length.toNat) := by
        intro inside
        have bound : start.toNat + length.toNat < 2 ^ 64 :=
          Nat.lt_of_le_of_lt (inside_block_iff.mp inside) (by decide)
        have exact := endOf?_eq_some_iff.mpr (UInt64.toNat_ofNat_of_lt bound)
        rw [ends] at exact
        cases exact
      rw [Option.bind_none, if_neg beyond]
  | some stop =>
      have exact := endOf?_eq_some_iff.mp ends
      rw [Option.bind_some, exact, Nat.add_sub_cancel_left]

theorem stored?_loadGlyphs (memory : Memory) (base : UInt64) :
    memory.stored? (.loadGlyphs base) = memory.loadGlyphs? base.toNat := by
  have same : (List.range 80).map (fun offset => Glyphs.bytes.getD offset 0) = Glyphs.bytes := rfl
  have block := block?_eq base 80 fun length =>
    memory.store base.toNat ((List.range length).map fun offset => Glyphs.bytes.getD offset 0)
  have eighty : (80 : UInt64).toNat = 80 := rfl
  rw [eighty, same] at block
  rw [loadGlyphs?, write?, Glyphs.length_bytes]
  exact block

theorem told?_readWord (memory : Memory) (address : UInt64) :
    memory.told? (.readWord address) = (memory.word? address.toNat).map Reply.word := by
  have block : ((endOf? address 2).bind fun stop => memory.readRange? address stop) =
      if Inside address.toNat (address.toNat + 2) then some (memory.slice address.toNat 2)
      else none :=
    block?_eq address 2 (memory.slice address.toNat)
  rw [told?, block, word?]
  split
  · rfl
  · rfl

/-! ### One request -/

theorem byte_store_inside (memory : Memory) {start : Nat} {values : List UInt8}
    (inside : start + values.length ≤ size) (address : Nat) :
    (memory.store start values).byte address =
      if start ≤ address ∧ address < start + values.length then values.getD (address - start) 0
      else memory.byte address := by
  have within : (start ≤ address ∧ address < start + values.length ∧ address < size) ↔
      start ≤ address ∧ address < start + values.length := by
    omega
  simp only [byte_store, within]

private theorem byte_store_contents (memory : Memory) {start stop : Nat} (ordered : start ≤ stop)
    (inside : stop ≤ size) (contents : Nat → UInt8) (address : Nat) :
    (memory.store start ((List.range (stop - start)).map contents)).byte address =
      if start ≤ address ∧ address < stop then contents (address - start)
      else memory.byte address := by
  have counted : ((List.range (stop - start)).map contents).length = stop - start := by
    rw [List.length_map, List.length_range]
  have ends : start + (stop - start) = stop := by omega
  rw [byte_store_inside memory (by omega), counted, ends]
  split
  · rename_i covered
    have offset : address - start < stop - start := by omega
    simp [offset]
  · rfl

theorem serves_of_store (after : Memory)
    (accepted : request.Fits → memory.stored? request = some after)
    (refused : ¬ request.Fits → memory.stored? request = none)
    (silent : memory.told? request = none) (truth : memory.Tells request .done)
    (byte : request.Fits → ∀ address,
      after.byte address = (request.puts? address).getD (memory.byte address)) :
    memory.Serves request := by
  by_cases fits : request.Fits
  · have served : memory.serve request = (after, some .done) := by
      rw [serve, accepted fits]
    refine ⟨?_, fun outside => absurd fits outside, ?_, fun _ => ?_⟩
    · simp [served, fits]
    · rintro reply replied
      rw [served] at replied
      cases replied
      exact truth
    · rw [served]
      exact byte fits
  · have served : memory.serve request = (memory, none) := by
      rw [serve, refused fits, silent]
    refine ⟨?_, fun _ => served, ?_, fun inside => absurd inside fits⟩
    · simp [served, fits]
    · rintro reply replied
      rw [served] at replied
      cases replied

theorem serves_of_read {reply : Reply} (unchanging : memory.stored? request = none)
    (accepted : request.Fits → memory.told? request = some reply)
    (refused : ¬ request.Fits → memory.told? request = none)
    (truth : memory.Tells request reply) (spares : ∀ address, request.puts? address = none) :
    memory.Serves request := by
  have served : memory.serve request = (memory, memory.told? request) := by
    rw [serve, unchanging]
  refine ⟨?_, ?_, ?_, ?_⟩
  · rw [served]
    by_cases fits : request.Fits
    · simp [accepted fits, fits]
    · simp [refused fits, fits]
  · intro outside
    rw [served, refused outside]
  · intro given replied
    rw [served] at replied
    by_cases fits : request.Fits
    · rw [accepted fits] at replied
      cases replied
      exact truth
    · rw [refused fits] at replied
      cases replied
  · intro _ address
    rw [served, spares, Option.getD_none]

theorem byte?_of_lt (memory : Memory) {address : Nat} (inside : address < size) :
    memory.byte? address = some (memory.byte address) := by
  rw [byte?_eq, if_pos inside]

theorem byte?_of_not_lt (memory : Memory) {address : Nat} (outside : ¬ address < size) :
    memory.byte? address = none := by
  rw [byte?_eq, if_neg outside]

theorem serves (memory : Memory) (request : Request) : memory.Serves request := by
  cases request with
  | clear =>
      exact serves_of_store zeroed (fun _ => rfl) (fun outside => absurd trivial outside) rfl rfl
        fun _ address => byte_zeroed address
  | loadGlyphs base =>
      have counted : (Request.loadGlyphs base).Fits ↔
          Inside base.toNat (base.toNat + Glyphs.bytes.length) := by
        rw [Glyphs.length_bytes]
        exact inside_block_iff.symm
      refine serves_of_store (memory.store base.toNat Glyphs.bytes) ?_ ?_ rfl rfl ?_
      · intro inside
        rw [stored?_loadGlyphs, loadGlyphs?, write?, if_pos (counted.mp inside)]
      · intro outside
        rw [stored?_loadGlyphs, loadGlyphs?, write?, if_neg (mt counted.mpr outside)]
      · intro inside address
        rw [byte_store_inside memory (counted.mp inside).2, Glyphs.length_bytes, Request.puts?]
        split <;> rfl
  | loadRegion region data =>
      cases region
      refine serves_of_store (memory.store 0x200 data) ?_ ?_ rfl rfl ?_
      · exact fun inside => if_pos inside
      · exact fun outside => if_neg outside
      · intro inside address
        have within : 0x200 + data.length ≤ size := Nat.add_le_add_left inside 0x200
        rw [byte_store_inside memory within, Request.puts?]
        split <;> rfl
  | viewRegion region =>
      cases region
      exact serves_of_read rfl (fun _ => rfl) (fun outside => absurd trivial outside) rfl
        fun _ => rfl
  | readByte address =>
      refine serves_of_read rfl ?_ ?_ rfl fun _ => rfl
      · intro inside
        rw [told?, byte?_of_lt memory inside, Option.map_some]
      · intro outside
        rw [told?, byte?_of_not_lt memory outside, Option.map_none]
  | readRange start stop =>
      refine serves_of_read rfl ?_ ?_ rfl fun _ => rfl
      · intro inside
        exact congrArg (Option.map Reply.bytes) (if_pos inside)
      · intro outside
        exact congrArg (Option.map Reply.bytes) (if_neg outside)
  | readWord address =>
      refine serves_of_read rfl ?_ ?_ ⟨_, rfl, Word.toNat_ofBytes _ _⟩ fun _ => rfl
      · intro inside
        rw [told?_readWord, word?, if_pos (inside_block_iff.mpr inside), Option.map_some]
      · intro outside
        rw [told?_readWord, word?, if_neg (mt inside_block_iff.mp outside), Option.map_none]
  | storeByte address value =>
      refine serves_of_store (memory.set address.toNat value) ?_ ?_ rfl rfl ?_
      · intro inside
        rw [stored?, byte?_of_lt memory inside, Option.map_some]
      · intro outside
        rw [stored?, byte?_of_not_lt memory outside, Option.map_none]
      · intro inside other
        have within : address.toNat < size := inside
        simp only [byte_set, within, and_true, Request.puts?]
        split <;> rfl
  | storeRange start stop contents =>
      refine serves_of_store (memory.store start.toNat
        ((List.range (stop.toNat - start.toNat)).map contents)) ?_ ?_ rfl rfl ?_
      · exact fun inside => if_pos inside
      · exact fun outside => if_neg outside
      · rintro ⟨ordered, inside⟩ address
        rw [byte_store_contents memory ordered inside, Request.puts?]
        split <;> rfl

/-! ### Requests in turn -/

private theorem byte_serve_of_spared {address : Nat}
    (spared : request.Fits → request.puts? address = none) :
    (memory.serve request).1.byte address = memory.byte address := by
  by_cases fits : request.Fits
  · rw [(serves memory request).byte fits, spared fits, Option.getD_none]
  · rw [(serves memory request).refused fits]

theorem byte_served_of_spared (memory : Memory) {requests : List Request} {address : Nat}
    (spared : ∀ request ∈ requests, request.Fits → request.puts? address = none) :
    (memory.served requests).byte address = memory.byte address := by
  induction requests generalizing memory with
  | nil => rfl
  | cons first rest ih =>
      obtain ⟨firstSpared, restSpared⟩ := List.forall_mem_cons.mp spared
      have unfolded : memory.served (first :: rest) = (memory.serve first).1.served rest := rfl
      rw [unfolded, ih _ restSpared, byte_serve_of_spared firstSpared]

theorem byte_served_of_last (memory : Memory) (earlier : List Request) {write : Request}
    {later : List Request} {address : Nat} {value : UInt8} (fits : write.Fits)
    (puts : write.puts? address = some value)
    (spared : ∀ request ∈ later, request.Fits → request.puts? address = none) :
    (memory.served (earlier ++ write :: later)).byte address = value := by
  have split : memory.served (earlier ++ write :: later) =
      ((memory.served earlier).serve write).1.served later := by
    rw [served, List.foldl_append, List.foldl_cons]
    rfl
  rw [split, byte_served_of_spared _ spared, (serves _ write).byte fits, puts, Option.getD_some]

/-- A memory that was zeroed and then served any requests, at whatever addresses, still serves each
request as an array with checked bounds does: it refuses what does not stay inside, and then
nothing changes. Each byte is the one that the last accepted request which covers it put there, and
zero if there is none. -/
theorem memory_keeps_last_stores (history : List Request) :
    (∀ request, (zeroed.served history).Serves request) ∧
    (∀ earlier write later address value, history = earlier ++ write :: later → write.Fits →
      write.puts? address = some value →
      (∀ request ∈ later, request.Fits → request.puts? address = none) →
      (zeroed.served history).byte address = value) ∧
    ∀ address, (∀ request ∈ history, request.Fits → request.puts? address = none) →
      (zeroed.served history).byte address = 0 := by
  refine ⟨serves _, ?_, ?_⟩
  · rintro earlier write later address value rfl fits puts spared
    exact byte_served_of_last zeroed earlier fits puts spared
  · intro address spared
    rw [byte_served_of_spared zeroed spared, byte_zeroed]

/-- A program with a patch over its end, and three requests that reach outside. The sum of the
glyphs' base and their length would wrap. -/
def patched : List Request :=
  [.loadRegion .program [0x12, 0x34, 0x56],
    .storeRange 0x201 0x204 fun offset => if offset = 0 then 0xaa else 0xbb,
    .loadGlyphs 0xffffffffffffffd8,
    .storeRange 0xfff 0x1001 fun _ => 7,
    .storeByte 0x1000 7]

theorem patched_keeps_last_stores :
    (zeroed.served patched).byte 0x200 = 0x12 ∧ (zeroed.served patched).byte 0x201 = 0xaa ∧
    (zeroed.served patched).byte 0xfff = 0 ∧
    (zeroed.served patched).serve (.readWord 0xffffffffffffffff) =
      (zeroed.served patched, none) ∧
    ((zeroed.served patched).serve (.readWord 0x200)).2 = some (.word 0x12aa) := by
  obtain ⟨serving, last, untouched⟩ := memory_keeps_last_stores patched
  have first : (zeroed.served patched).byte 0x200 = 0x12 := by
    refine last [] (.loadRegion .program [0x12, 0x34, 0x56]) _ 0x200 0x12 rfl (by decide) rfl ?_
    simp only [List.forall_mem_cons]
    decide
  have second : (zeroed.served patched).byte 0x201 = 0xaa := by
    refine last [.loadRegion .program [0x12, 0x34, 0x56]] _ _ 0x201 0xaa rfl (by decide) rfl ?_
    simp only [List.forall_mem_cons]
    decide
  have third : (zeroed.served patched).byte 0xfff = 0 := by
    apply untouched
    simp only [patched, List.forall_mem_cons]
    decide
  refine ⟨first, second, third, (serving (.readWord 0xffffffffffffffff)).refused (by decide), ?_⟩
  have accepted := (serving (.readWord 0x200)).accepted_iff.mpr (by decide)
  obtain ⟨reply, replied⟩ := Option.isSome_iff_exists.mp accepted
  obtain ⟨word, rfl, value⟩ := (serving (.readWord 0x200)).told reply replied
  have same : word = 0x12aa := by
    apply UInt16.toNat.inj
    have address : (0x200 : UInt64).toNat = 0x200 := rfl
    rw [value, address, first, second]
    rfl
  rw [replied, same]

end Chip8.Memory
