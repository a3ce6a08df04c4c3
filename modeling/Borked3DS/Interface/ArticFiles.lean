import Borked3DS.Model.ArticCache

/-!
# A cache that does not show

What it means that the cache of a remote file does not show, and which calls keep it from showing.
-/

set_option autoImplicit false

namespace Borked3DS.Interface

open Borked3DS.Library Borked3DS.Model Borked3DS.Model.Artic

/-- A file that has just been opened: its cache holds nothing but maybe the size, which the server
told when the file was opened. -/
def openedFile (c : ArticCache) (file : List UInt8) (sizeKnown : Bool) : ArticFileBackend :=
  { cache := some (c.clear.forceSetSize (if sizeKnown then some (u64 file.length) else none))
    file }

/-- Some calls return what they return without a cache. -/
def CacheTransparent (maxSize : ℕ) (f : ArticFileBackend) (inputs : List (Answers × Call)) : Prop :=
  f.calls maxSize inputs = ({ f with cache := none } : ArticFileBackend).calls maxSize inputs

/-- The backend after a call. -/
def articStep (maxSize : ℕ) (f : ArticFileBackend) (input : Answers × Call) :
    Exec ArticFileBackend := do
  let (_, f) ← f.call maxSize input.1 input.2
  pure f

/-- The server answers the requests that a read of some bytes makes. -/
def AnswersRead (maxSize : ℕ) (a : Answers) (file : List UInt8) (length offset : ℕ) : Prop :=
  ∃ bytes, readFromArtic maxSize a file length offset = .ok (bytes, none)

/-- The pages that are not cached when they are requested one after the other. -/
def missedPages {n : ℕ} : StaticLRUCache ℕ Line n → List ℕ → List ℕ
  | _, [] => []
  | c, page :: pages =>
      let (found, _, c) := c.request page
      if found then missedPages c pages else page :: missedPages c pages

/-- The pages of a read that are not cached, if it is broken up into pages. -/
def filledPages (c : ArticCache) (offset length : ℕ) : List ℕ :=
  if maxBreakupSize < length then []
  else missedPages c.cache ((breakupRead offset length).map fun seg => offsetToPage seg.1)

/-- A call that the cache does not show in. A read that ends before the size of the file does not
wrap, and the server would answer it as well as the reads of the pages that it fills. A size that is
remembered could be asked for again, and does not change. -/
def HidesCache (maxSize : ℕ) (f : ArticFileBackend) (input : Answers × Call) : Prop :=
  match f.cache, input.2 with
  | some c, .read offset length =>
      u64 (offset + length) < (f.getSize input.1).1 →
        offset + length < 2 ^ 64 ∧ AnswersRead maxSize input.1 f.file length offset ∧
          ∀ page ∈ filledPages c offset length,
            AnswersRead maxSize input.1 f.file cacheLineSize page
  | some c, .getSize => c.dataSize ≠ none → input.1.getSizeFails = none
  | some c, .setSize size => c.dataSize ≠ none → (input.1.setSize f.file size).2 = f.file
  | _, _ => True

/-- Some calls that the cache does not show in, one after the other. -/
def HidesCacheAlong (maxSize : ℕ) : ArticFileBackend → List (Answers × Call) → Prop
  | _, [] => True
  | f, input :: inputs =>
      HidesCache maxSize f input ∧
        ∀ f', articStep maxSize f input = .ok f' → HidesCacheAlong maxSize f' inputs

end Borked3DS.Interface
