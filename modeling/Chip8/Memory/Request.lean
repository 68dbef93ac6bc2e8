import Chip8.Memory

/-!
Requests to a memory from clients that count in sixty-four bits. The end of a block is found by an
addition that wraps, so its sum is looked at before it is used. A request that does not stay inside
memory is refused before anything is stored.
-/

namespace Chip8.Memory

/-- What a client can ask. A store to a range gives its contents by their distance from the start,
and access to the whole of memory is access to the range that it fills. -/
inductive Request
  | clear
  | loadGlyphs (base : UInt64)
  | loadRegion (region : Region) (data : List UInt8)
  | viewRegion (region : Region)
  | readByte (address : UInt64)
  | readRange (start stop : UInt64)
  | readWord (address : UInt64)
  | storeByte (address : UInt64) (value : UInt8)
  | storeRange (start stop : UInt64) (contents : Nat → UInt8)

inductive Reply
  | done
  | byte (value : UInt8)
  | bytes (values : List UInt8)
  | word (value : UInt16)
  deriving DecidableEq, Repr

/-- The end of a block, unless the addition has wrapped. -/
def endOf? (start length : UInt64) : Option UInt64 :=
  if start ≤ start + length then some (start + length) else none

def storeRange? (memory : Memory) (start stop : UInt64) (contents : Nat → UInt8) :
    Option Memory :=
  if Inside start.toNat stop.toNat then
    some (memory.store start.toNat
      ((List.range (stop.toNat - start.toNat)).map contents))
  else none

def readRange? (memory : Memory) (start stop : UInt64) : Option (List UInt8) :=
  memory.range? start.toNat stop.toNat

def stored? (memory : Memory) : Request → Option Memory
  | .clear => some zeroed
  | .loadGlyphs base =>
      (endOf? base 80).bind fun stop =>
        memory.storeRange? base stop fun offset => Glyphs.bytes.getD offset 0
  | .loadRegion region data => memory.loadRegion? region data
  | .storeByte address value =>
      (memory.byte? address.toNat).map fun _ => memory.set address.toNat value
  | .storeRange start stop contents => memory.storeRange? start stop contents
  | _ => none

def told? (memory : Memory) : Request → Option Reply
  | .viewRegion region => some (.bytes (memory.region region))
  | .readByte address => (memory.byte? address.toNat).map Reply.byte
  | .readRange start stop => (memory.readRange? start stop).map Reply.bytes
  | .readWord address =>
      ((endOf? address 2).bind fun stop => memory.readRange? address stop).map fun bytes =>
        .word (Word.ofBytes (bytes.getD 0 0) (bytes.getD 1 0))
  | _ => none

/-- Serve a request. One that is refused has no reply. -/
def serve (memory : Memory) (request : Request) : Memory × Option Reply :=
  match memory.stored? request with
  | some after => (after, some .done)
  | none => (memory, memory.told? request)

/-- A memory after some requests, whether they are accepted or not. -/
def served (memory : Memory) (requests : List Request) : Memory :=
  requests.foldl (fun memory request => (memory.serve request).1) memory

end Chip8.Memory
