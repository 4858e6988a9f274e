import SegregatedFit.Config
import SegregatedFit.Failure
import SegregatedFit.Tag
import SegregatedFit.Violation

/-!
# Events

What a heap tells while it works. An event is a value; its text is one line with a level, a
message, and named values in the order of their names.
-/

namespace SegregatedFit

/-- How loud an event is. -/
inductive Level where
  /-- A step of an operation. -/
  | trace
  /-- A change of the arena, or what a verbose audit reads. -/
  | debug
  /-- A refusal, or something broken. -/
  | warn
  deriving DecidableEq

/-- The word for a level. -/
def Level.name : Level → String
  | trace => "TRACE"
  | debug => "DEBUG"
  | warn => "WARN"

/-- The operations after which a heap audits itself. -/
inductive Occasion where
  /-- A heap was set up. -/
  | setup
  /-- A block was handed out. -/
  | allocate
  /-- A block was given back. -/
  | release
  /-- A payload moved to a new block. -/
  | reallocate
  deriving DecidableEq

/-- The word for an occasion. -/
def Occasion.name : Occasion → String
  | setup => "init"
  | allocate => "allocate"
  | release => "release"
  | reallocate => "reallocate"

/-- Something that happened in a heap. -/
inductive Event where
  /-- The arena got more bytes. -/
  | arenaGrown (base bytes granted : Nat)
  /-- A heap is set up. -/
  | heapReady (chunk : Nat) (policy : Policy)
  /-- The segregated search took the first block of a bucket. -/
  | segregatedFit (need bucket block : Nat)
  /-- The rover stopped at a block. -/
  | nextFit (need block : Nat)
  /-- A free block was divided, and the rest stays free. -/
  | split (block size rest remainder : Nat)
  /-- A free block was used as a whole. -/
  | usedWhole (block size slack : Nat)
  /-- A freed block took in the free block above it. -/
  | mergedAbove (block above size : Nat)
  /-- A freed block became part of the free block below it. -/
  | mergedBelow (block below size : Nat)
  /-- A freed block joined the free blocks on both sides. -/
  | mergedBoth (block below above size : Nat)
  /-- A payload moved to another block. -/
  | moved (source target copied : Nat)
  /-- The arena could not grow for a request. -/
  | outOfMemory (request size : Nat) (cause : GrowthError)
  /-- An audit begins. -/
  | auditBegins (start length : Nat)
  /-- An audit reads the tags of a block. -/
  | auditBlock (block : Nat) (header footer : Tag)
  /-- An audit meets a tag of size zero. -/
  | auditEnds (block : Nat)
  /-- An audit found something broken. -/
  | violated (violation : Violation)
  /-- The audit after an operation found something broken. -/
  | auditFailed (occasion : Occasion) (count : Nat)
  /-- A session could not set up its heap. -/
  | setupFailed (error : HeapError)
  /-- A session was given back an address that is not in use. -/
  | freeRefused (error : HeapError)
  deriving DecidableEq

namespace Event

/-- The level of an event. -/
def level : Event → Level
  | arenaGrown .. | heapReady .. | auditBegins .. | auditBlock .. | auditEnds .. => .debug
  | segregatedFit .. | nextFit .. | split .. | usedWhole .. | mergedAbove .. | mergedBelow ..
  | mergedBoth .. | moved .. => .trace
  | outOfMemory .. | violated .. | auditFailed .. | setupFailed .. | freeRefused .. => .warn

/-- A tag as an audit shows it: the size, and a letter for allocated or free. -/
def showTag (t : Tag) : String :=
  let flag := if t.allocated then "a" else "f"
  s!"[{t.size}:{flag}]"

/-- The message of an event, without its named values. -/
def message : Event → String
  | arenaGrown .. => "arena grown"
  | heapReady .. => "heap initialized"
  | segregatedFit .. => "segregated fit"
  | nextFit .. => "next fit"
  | split .. => "split free block"
  | usedWhole .. => "placed whole block"
  | mergedAbove .. => "merged with next block"
  | mergedBelow .. => "merged with previous block"
  | mergedBoth .. => "merged with both neighbors"
  | moved .. => "block reallocated"
  | outOfMemory .. => "out of memory"
  | auditBegins .. => "heap"
  | auditBlock block header footer =>
    s!"{block}: header: {showTag header} footer: {showTag footer}"
  | auditEnds .. => "end of heap"
  | violated .. => "heap invariant violated"
  | auditFailed .. => "heap consistency check failed"
  | setupFailed .. => "segmalloc_init failed"
  | freeRefused .. => "segmalloc_free rejected pointer"

/-- The named values of an event, sorted by name. -/
def fields : Event → List (String × String)
  | arenaGrown base bytes granted =>
    [("base", toString base), ("bytes", toString bytes), ("granted", toString granted)]
  | heapReady chunk policy => [("chunk", toString chunk), ("policy", policy.name)]
  | segregatedFit need bucket block =>
    [("asize", toString need), ("bp", toString block), ("class", toString bucket)]
  | nextFit need block => [("asize", toString need), ("bp", toString block)]
  | split block size rest remainder =>
    [("asize", toString size), ("bp", toString block), ("remainder", toString remainder),
      ("rest", toString rest)]
  | usedWhole block size slack =>
    [("asize", toString size), ("bp", toString block), ("slack", toString slack)]
  | mergedAbove block above size =>
    [("bp", toString block), ("next", toString above), ("size", toString size)]
  | mergedBelow block below size =>
    [("bp", toString block), ("prev", toString below), ("size", toString size)]
  | mergedBoth block below above size =>
    [("bp", toString block), ("next", toString above), ("prev", toString below),
      ("size", toString size)]
  | moved source target copied =>
    [("copy_size", toString copied), ("new", toString target), ("old", toString source)]
  | outOfMemory request size cause =>
    [("asize", toString size), ("error", cause.message), ("size", toString request)]
  | auditBegins start length => [("len", toString length), ("start", toString start)]
  | auditBlock .. => []
  | auditEnds block => [("bp", toString block)]
  | violated violation => [("violation", violation.message)]
  | auditFailed occasion count => [("count", toString count), ("op", occasion.name)]
  | setupFailed error => [("error", error.message)]
  | freeRefused error => [("error", error.message)]

/-- The line of an event. -/
def text (e : Event) : String :=
  e.fields.foldl (fun line field => line ++ " " ++ field.1 ++ "=" ++ field.2)
    (e.level.name ++ " " ++ e.message)

end Event

end SegregatedFit
