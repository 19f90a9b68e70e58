import LeaseLock.Mongo.Bson
import LeaseLock.Options

/-!
# Updates that the server computes

**Expressions.** The new fields of a record are computed by the server from the stored ones and
from its own clock, which an expression calls `$$NOW`. Names and owners go in as literals, since a
text with a dollar sign at its front would be read as a field.

**Taking a record** (`takePipeline`). A record can be taken if there is none, if it has ended,
or if it carries our owner already (`takeable`). Then owner, token, end and time of writing become
ours; otherwise each of them stays as it is stored.

**Keeping it** (`keepPipeline`). Only the end and the time of writing are set.
-/

namespace LeaseLock.Mongo

/-- A value that stands for itself. -/
def literal (s : String) : Bson := .single "$literal" (.text s)

/-- The value of a stored field. -/
def stored (field : String) : Bson := .text ("$" ++ field)

/-- The server's clock. -/
def serverNow : Bson := .text "$$NOW"

/-- The end of a lease that starts now. -/
def leaseEnd (o : Options) : Bson :=
  .single "$dateAdd" (.document [
    ("startDate", serverNow), ("unit", .text "millisecond"), ("amount", .int64 o.wholeMillis)])

/-- The stored record has ended, or was never there, or is our owner's. -/
def takeable (o : Options) : Bson :=
  .single "$or" (.list [
    .single "$lte" (.list [.single "$ifNull" (.list [stored "expiredAt", .date 0]), serverNow]),
    .single "$eq" (.list [stored "ownerID", literal o.owner])])

/-- Our value for a field if the record can be taken, and the stored one otherwise. -/
def ifTakeable (o : Options) (ours : Bson) (field : String) : Bson :=
  .single "$cond" (.list [takeable o, ours, stored field])

/-- Takes the record with a token, if it can be taken. -/
def takePipeline (o : Options) (token : String) : List Bson :=
  [.single "$set" (.document [
    ("name", literal o.name),
    ("ownerID", ifTakeable o (literal o.owner) "ownerID"),
    ("lockId", ifTakeable o (literal token) "lockId"),
    ("expiredAt", ifTakeable o (leaseEnd o) "expiredAt"),
    ("createdAt", .single "$ifNull" (.list [stored "createdAt", serverNow])),
    ("updatedAt", ifTakeable o serverNow "updatedAt")])]

/-- Moves the end of the record. -/
def keepPipeline (o : Options) : List Bson :=
  [.single "$set" (.document [("expiredAt", leaseEnd o), ("updatedAt", serverNow)])]

end LeaseLock.Mongo
