/-!
# Journal

What is worth noting while documents are read and results are stored.
-/

namespace Harvest

inductive Weight
  | info
  | warning
  | error
deriving DecidableEq, Repr

inductive Area
  | command
  | config
  | batch
  | store
  | schema
deriving DecidableEq, Repr

inductive Event
  | fetching (address : String)
  | readingConfig (path : String)
  | findingDocuments
  | nothingFits (pattern : String)
  | foundDocuments (count : Nat)
  | nothingToDo
  | started (count : Nat)
  | schemaLost (key reason : String)
  | documentLost (path reason : String)
  | nothingExtracted (path : String)
  | resultLost (source : String)
  | finished (success failed skipped : Int)
  | resultNotWritten (source reason : String)
  | documentsStored (count : Nat)
  | recordsNotWritten (count : Nat) (path reason : String)
  | recordsWritten (count : Nat) (path : String)
  | lastFlush
  | batchesStored (count : Nat)
  | extractionFailed (reason : String)
  | runFailed (reason : String)
  | fieldsSaved (count : Nat) (path : String)
  | planned (path name : String)
  | summary (success failed skipped : Int)
deriving DecidableEq, Repr

namespace Event

def weight : Event → Weight
  | nothingFits _ => .warning
  | nothingExtracted _ => .warning
  | schemaLost _ _ => .error
  | documentLost _ _ => .error
  | resultLost _ => .error
  | resultNotWritten _ _ => .error
  | recordsNotWritten _ _ _ => .error
  | extractionFailed _ => .error
  | runFailed _ => .error
  | _ => .info

def area : Event → Area
  | fetching _ => .schema
  | readingConfig _ => .config
  | findingDocuments => .config
  | nothingFits _ => .config
  | foundDocuments _ => .config
  | nothingToDo => .batch
  | started _ => .batch
  | schemaLost _ _ => .batch
  | documentLost _ _ => .batch
  | nothingExtracted _ => .batch
  | resultLost _ => .batch
  | finished _ _ _ => .batch
  | resultNotWritten _ _ => .store
  | documentsStored _ => .store
  | recordsNotWritten _ _ _ => .store
  | recordsWritten _ _ => .store
  | lastFlush => .store
  | batchesStored _ => .store
  | extractionFailed _ => .command
  | runFailed _ => .command
  | fieldsSaved _ _ => .command
  | planned _ _ => .command
  | summary _ _ _ => .command

def countsText (success failed skipped : Int) : String :=
  toString success ++ " success, " ++ toString failed ++ " failed, " ++ toString skipped ++
    " skipped"

def message : Event → String
  | fetching address => "Fetching schema: " ++ address
  | readingConfig path => "Loading configuration from: " ++ path
  | findingDocuments => "Resolving paths and expanding globs"
  | nothingFits pattern => "No documents match pattern: " ++ pattern
  | foundDocuments n => "Loaded " ++ toString n ++ " documents"
  | nothingToDo => "No items to process"
  | started n => "Starting batch extraction of " ++ toString n ++ " documents"
  | schemaLost key reason => "Failed to load schema " ++ key ++ ": " ++ reason
  | documentLost path reason => "Failed to extract " ++ path ++ ": " ++ reason
  | nothingExtracted path => "Nothing extracted from " ++ path ++ ", skipping"
  | resultLost source => "Result for " ++ source ++ " was not saved"
  | finished s f k => "Batch extraction completed: " ++ countsText s f k
  | resultNotWritten source reason => "Failed to save result for " ++ source ++ ": " ++ reason
  | documentsStored n => "FilePerDocumentStrategy completed. Saved " ++ toString n ++ " files."
  | recordsNotWritten n path reason =>
    "Failed to flush " ++ toString n ++ " records to " ++ path ++ ": " ++ reason
  | recordsWritten n path => "Flushed " ++ toString n ++ " records to " ++ path
  | lastFlush => "Finalizing JsonLinesStrategy - flushing buffer"
  | batchesStored n => "JsonLinesStrategy completed. Wrote " ++ toString n ++ " batches."
  | extractionFailed reason => "Extraction failed: " ++ reason
  | runFailed reason => "Batch extraction failed: " ++ reason
  | fieldsSaved n path => "Saved " ++ toString n ++ " fields to " ++ path
  | planned path name => "Would extract: " ++ path ++ " -> " ++ name
  | summary s f k => "Batch stats: " ++ countsText s f k

end Event

end Harvest
