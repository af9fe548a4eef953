import EntryFlow.Corpus.Document
import EntryFlow.Datum.Bytes
import EntryFlow.Host

/-!
# Corpora in files

A corpus file is a JSON list of types.
-/

namespace EntryFlow.Corpus

/-- The types that the bytes of a file describe. -/
def ofBytes (path : String) (bytes : List UInt8) : Except Fault (List TypeRecord) := do
  match ← Json.ofBytes bytes with
  | .list items => items.mapM (TypeRecord.load false)
  | _ => throw (.corpusNotAList path)

/-- Read a corpus from a file. -/
def ofFile {m : Type → Type} [Monad m] [MonadExceptOf Fault m] [Host m] (path : String) :
    m (List TypeRecord) := do
  Host.ofResult (ofBytes path (← Host.read path))

end EntryFlow.Corpus
