import Rustberg.Base.Pattern
import Rustberg.Location

/-!
# What a vended credential is scoped to

`credentials/aws.rs` and `credentials/gcs.rs`: a table's location is split
into a bucket and a key, and the two are quoted into the document that
bounds the credential, an STS session policy or a Google access boundary.
The documents are JSON values; what they permit is read off by the rules
of their own languages.
-/

namespace Rustberg

/-- `StorageCredentialVendingError`, as far as scoping raises it. -/
inductive VendingError where
  | awsStsError (message : Text)
  | gcsError (message : Text)
  deriving DecidableEq

/-- `is_vendable` -/
def isVendable (allowedPrefixes : List Text) (location : Text) : Bool :=
  allowedPrefixes.any fun allowed => isWithin allowed location

/-- The bucket and the key of a location spelled with one of the schemes. -/
def splitBucket (schemes : List Text) (location : Text) : Option (Text × Text) :=
  (schemes.findSome? fun scheme => Text.stripPrefix location scheme).map fun rest =>
    match Text.splitOnce '/' rest with
    | some (bucket, key) => (bucket, key.trimEndMatches '/')
    -- A bare bucket.
    | none => (rest, [])

/-! ## S3 -/

namespace Aws

def schemes : List Text := ["s3://".toList, "s3a://".toList, "s3n://".toList]

def splitLocation (location : Text) : Option (Text × Text) := splitBucket schemes location

/-- Escapes the characters IAM reads as pattern syntax; the `$` first. -/
def escapeIam (value : Text) : Text :=
  ((value.replaceChar '$' "$\x7b$\x7d".toList).replaceChar '*' "$\x7b*\x7d".toList).replaceChar '?'
    "$\x7b?\x7d".toList

def objectActions (writeAccess : Bool) : List String :=
  ["s3:GetObject", "s3:GetObjectVersion"] ++
    if writeAccess then ["s3:PutObject", "s3:DeleteObject", "s3:AbortMultipartUpload"] else []

def bucketArn (bucket : Text) : Text := "arn:aws:s3:::".toList ++ bucket

/-- The statements of a session policy, for a quoted bucket and key. -/
def document (bucket keyPrefix : Text) (writeAccess : Bool) : Json :=
  let objectArn :=
    if keyPrefix = [] then bucketArn bucket ++ "/*".toList
    else bucketArn bucket ++ ['/'] ++ keyPrefix ++ "/*".toList
  let listPrefix := if keyPrefix = [] then "*".toList else keyPrefix ++ "/*".toList
  .of [("Version", .str "2012-10-17"),
    ("Statement", .array [
      .of [("Sid", .str "TableObjects"),
        ("Effect", .str "Allow"),
        ("Action", .array ((objectActions writeAccess).map Json.str)),
        ("Resource", .string objectArn)],
      -- Listing is of a bucket, so a condition on the prefix confines it.
      .of [("Sid", .str "ListTablePrefix"),
        ("Effect", .str "Allow"),
        ("Action", .str "s3:ListBucket"),
        ("Resource", .string (bucketArn bucket)),
        ("Condition", .of [("StringLike", .of [("s3:prefix", .array [.string listPrefix])])])]])]

def maxSessionPolicy : Nat := 2048

/-- `session_policy`; `print` is `to_string` of a JSON value, the text that is sent. -/
def sessionPolicy (print : Json → Text) (location : Text) (writeAccess : Bool) :
    Except VendingError Json :=
  match splitLocation location with
  | none => .error (.awsStsError ("Cannot scope credentials: '".toList ++ location ++
      "' is not an S3 location".toList))
  | some (bucket, keyPrefix) =>
      let policy := document (escapeIam bucket) (escapeIam keyPrefix) writeAccess
      if maxSessionPolicy < (print policy).len then
        .error (.awsStsError ("Scoped session policy for '".toList ++ location ++ "' is ".toList ++
          Text.decimal (print policy).len ++ " characters, over the STS limit of ".toList ++
          Text.decimal maxSessionPolicy ++ "; refusing to vend an unscoped credential".toList))
      else .ok policy

/-- The policy `vend_credentials` assumes a role with; none for a location it
does not vend for. -/
def vendPolicy (print : Json → Text) (allowedPrefixes : List Text) (location : Text)
    (writeAccess : Bool) : Except VendingError (Option Json) :=
  if isVendable allowedPrefixes location then (sessionPolicy print location writeAccess).map some
  else .ok none

end Aws

/-! ## GCS -/

namespace Gcs

def schemes : List Text := ["gs://".toList, "gcs://".toList]

def splitLocation (location : Text) : Option (Text × Text) := splitBucket schemes location

/-- Escapes a value going inside a single-quoted CEL literal; the backslash first. -/
def escapeCelLiteral (value : Text) : Text :=
  (value.replaceChar '\\' ['\\', '\\']).replaceChar '\'' ['\\', '\'']

def accessBoundary (bucket keyPrefix : Text) (writeAccess : Bool) : Json :=
  let role :=
    if writeAccess then "inRole:roles/storage.objectAdmin"
    else "inRole:roles/storage.objectViewer"
  -- An empty key means the whole bucket.
  let condition :=
    if keyPrefix = [] then []
    else [("availabilityCondition", Json.of [("title", .str "table-prefix"),
      ("expression", .string ("resource.name.startsWith('projects/_/buckets/".toList ++
        escapeCelLiteral bucket ++ "/objects/".toList ++ escapeCelLiteral keyPrefix ++
          "/')".toList))])]
  let rule := Json.of ([
    ("availableResource",
      .string ("//storage.googleapis.com/projects/_/buckets/".toList ++ bucket)),
    ("availablePermissions", .array [.str role])] ++ condition)
  .of [("accessBoundary", .of [("accessBoundaryRules", .array [rule])])]

/-- The boundary `vend_credentials` exchanges its token for; none for a location
it does not vend for. -/
def vendBoundary (allowedPrefixes : List Text) (location : Text) (writeAccess : Bool) :
    Except VendingError (Option Json) :=
  if isVendable allowedPrefixes location then
    match splitLocation location with
    | none => .error (.gcsError ("Cannot scope credentials: '".toList ++ location ++
        "' is not a GCS location".toList))
    | some (bucket, keyPrefix) => .ok (some (accessBoundary bucket keyPrefix writeAccess))
  else .ok none

end Gcs

end Rustberg
