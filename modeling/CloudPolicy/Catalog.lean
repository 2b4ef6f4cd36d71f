import CloudPolicy.Registry

/-!
The built-in rules in their fixed order. A finding names its resource by reference or else by
declared name, and points at the flag or else at the nearest declared node around it.
-/

set_option autoImplicit false
set_option relaxedAutoImplicit false

namespace CloudPolicy.Catalog

/-- The first managed metadata among the flag's own and those around it, innermost first; the flag's
own if none is managed. -/
def locate (own : Metadata) (enclosing : List Metadata) : Metadata :=
  ((own :: enclosing).find? (·.isManaged)).getD own

def label (metadata : Metadata) (name : Managed String) : String :=
  if metadata.effectiveReference != "" then metadata.effectiveReference
  else if name.value != "" then name.value
  else "<unnamed>"

/-- An access block's own reference, or else the label of the bucket that holds it. -/
def blockLabel (block : AccessBlock) (owner : Option Bucket) : String :=
  match block.metadata.effectiveReference, owner with
  | "", some bucket => label bucket.metadata bucket.name
  | _, _ => label block.metadata block.bucket

/-- A rule about a flag that every bucket has to state in one of its nested settings. -/
def bucketRule (definition : Definition) (flag : Bucket → Managed Bool)
    (setting : Bucket → Metadata) (describe : String → String) : Rule :=
  .ofFindings definition fun s =>
    (s.storage.buckets.filter fun b => !(flag b).isExplicitlyTrue).map fun b =>
      ⟨describe (label b.metadata b.name), locate (flag b).metadata [setting b, b.metadata]⟩

/-- A rule about a flag that no access block may switch off; an unset flag is fine. -/
def blockRule (definition : Definition) (flag : AccessBlock → Managed Bool)
    (describe : String → String) : Rule :=
  .ofFindings definition fun s =>
    (s.accessBlocks.filter fun p => (flag p.1).isExplicitlyFalse).map fun p =>
      ⟨describe (blockLabel p.1 p.2),
        locate (flag p.1).metadata (p.1.metadata :: (p.2.map (·.metadata)).toList)⟩

/-- A rule about a flag that every trail has to state. -/
def trailRule (definition : Definition) (flag : Trail → Managed Bool)
    (describe : String → String) : Rule :=
  .ofFindings definition fun s =>
    (s.trails.filter fun t => !(flag t).isExplicitlyTrue).map fun t =>
      ⟨describe (label t.metadata t.name), locate (flag t).metadata [t.metadata]⟩

/-- Versioning has to be switched on; leaving it unset counts as off. -/
def enableVersioning : Rule :=
  bucketRule
    { provider := .aws
      service := "s3"
      shortCode := "enable-versioning"
      summary := "S3 data should be versioned"
      impact := "Deleted or modified data would not be recoverable"
      resolution :=
        "Enable versioning to protect against accidental or malicious removal or modification"
      explanation :=
        "Versioning keeps multiple variants of an object in the same bucket, so every " ++
        "version of every object can be preserved, retrieved, and restored. It makes " ++
        "recovery from both unintended user actions and application failures easier."
      links := ["https://docs.aws.amazon.com/AmazonS3/latest/userguide/Versioning.html"]
      severity := .medium }
    (·.versioning.enabled) (·.versioning.metadata)
    fun who => "Resource '" ++ who ++ "' does not have versioning enabled"

def ignorePublicAcls : Rule :=
  blockRule
    { provider := .aws
      service := "s3"
      shortCode := "ignore-public-acls"
      summary := "S3 access block should ignore public ACLs"
      impact := "PUT calls with public ACLs specified can make objects public"
      resolution := "Enable ignoring the application of public ACLs in PUT calls"
      explanation :=
        "Buckets should ignore public ACLs on the bucket and on any objects it contains. " ++
        "Unlike blocking, PUT calls carrying a public ACL still succeed but the ACL is not " ++
        "applied."
      links :=
        ["https://docs.aws.amazon.com/AmazonS3/latest/userguide/access-control-block-public-access.html"]
      severity := .high }
    (·.ignorePublicAcls)
    fun who => "Public access block '" ++ who ++ "' does not ignore public ACLs"

def blockPublicAcls : Rule :=
  blockRule
    { provider := .aws
      service := "s3"
      shortCode := "block-public-acls"
      summary := "S3 access block should block public ACLs"
      impact := "PUT calls with public ACLs specified can make objects public"
      resolution := "Enable blocking any PUT calls with a public ACL specified"
      explanation :=
        "Blocking public ACLs rejects any PUT request that would attach a public ACL to the " ++
        "bucket or one of its objects."
      links :=
        ["https://docs.aws.amazon.com/AmazonS3/latest/userguide/access-control-block-public-access.html"]
      severity := .high }
    (·.blockPublicAcls)
    fun who => "Public access block '" ++ who ++ "' does not block public ACLs"

def blockPublicPolicy : Rule :=
  blockRule
    { provider := .aws
      service := "s3"
      shortCode := "block-public-policy"
      summary := "S3 access block should block public policy"
      impact := "Users could put a policy that allows public access"
      resolution := "Prevent policies that allow public access being PUT"
      explanation :=
        "Blocking public policy rejects bucket policies that grant public access, without " ++
        "changing existing ones."
      links :=
        ["https://docs.aws.amazon.com/AmazonS3/latest/userguide/access-control-block-public-access.html"]
      severity := .high }
    (·.blockPublicPolicy)
    fun who => "Public access block '" ++ who ++ "' does not block public policies"

def noPublicBuckets : Rule :=
  blockRule
    { provider := .aws
      service := "s3"
      shortCode := "no-public-buckets"
      summary := "S3 access block should restrict public bucket to limit access"
      impact := "Public buckets can be accessed by anyone"
      resolution := "Limit the access to public buckets to only the owner or AWS services"
      explanation :=
        "Restricting public buckets limits access to a bucket with a public policy to AWS " ++
        "service principals and authorized users within the bucket owner's account."
      links :=
        ["https://docs.aws.amazon.com/AmazonS3/latest/userguide/access-control-block-public-access.html"]
      severity := .high }
    (·.restrictPublicBuckets)
    fun who => "Public access block '" ++ who ++ "' does not restrict public buckets"

def enableBucketEncryption : Rule :=
  bucketRule
    { provider := .aws
      service := "s3"
      shortCode := "enable-bucket-encryption"
      summary := "Unencrypted S3 bucket"
      impact := "The bucket objects could be read if compromised"
      resolution := "Configure bucket encryption"
      explanation :=
        "Buckets should have encryption at rest configured so stored objects are unreadable " ++
        "without access to the key."
      links := ["https://docs.aws.amazon.com/AmazonS3/latest/userguide/bucket-encryption.html"]
      severity := .high }
    (·.encryption.enabled) (·.encryption.metadata)
    fun who => "Bucket '" ++ who ++ "' does not have encryption enabled"

def enableBucketLogging : Rule :=
  bucketRule
    { provider := .aws
      service := "s3"
      shortCode := "enable-bucket-logging"
      summary := "S3 bucket does not have logging enabled"
      impact := "There is no way to determine the access to this bucket"
      resolution := "Add a logging block to the resource to enable access logging"
      explanation :=
        "Access logging records each request made to the bucket, which is needed for " ++
        "security audits and incident response."
      links := ["https://docs.aws.amazon.com/AmazonS3/latest/userguide/ServerLogs.html"]
      severity := .medium }
    (·.logging.enabled) (·.logging.metadata)
    fun who => "Bucket '" ++ who ++ "' does not have logging enabled"

def enableAllRegions : Rule :=
  trailRule
    { provider := .aws
      service := "cloudtrail"
      shortCode := "enable-all-regions"
      summary :=
        "Cloudtrail should be enabled in all regions regardless of where your AWS resources " ++
        "are generally homed"
      impact := "Activity could be happening in your account in a different region"
      resolution := "Enable Cloudtrail in all regions"
      explanation :=
        "When creating Cloudtrail in the AWS Management Console the trail is configured by " ++
        "default to be multi-region; this is not the case with declarative infrastructure."
      links :=
        ["https://docs.aws.amazon.com/awscloudtrail/latest/userguide/receive-cloudtrail-log-files-from-multiple-regions.html"]
      severity := .medium }
    (·.isMultiRegion)
    fun who => "Trail '" ++ who ++ "' is not enabled across all regions"

def enableLogValidation : Rule :=
  trailRule
    { provider := .aws
      service := "cloudtrail"
      shortCode := "enable-log-validation"
      summary := "Cloudtrail log validation should be enabled to prevent tampering of log data"
      impact := "Illicit activity could be removed from the logs"
      resolution := "Turn on log validation for Cloudtrail"
      explanation := "Log validation produces a digest file for each log file delivered, so any " ++
        "modification or deletion after delivery can be detected."
      links :=
        ["https://docs.aws.amazon.com/awscloudtrail/latest/userguide/cloudtrail-log-file-validation-intro.html"]
      severity := .high }
    (·.logFileValidation)
    fun who => "Trail '" ++ who ++ "' does not have log validation enabled"

def rules : List Rule :=
  [enableVersioning,
    ignorePublicAcls,
    blockPublicAcls,
    blockPublicPolicy,
    noPublicBuckets,
    enableBucketEncryption,
    enableBucketLogging,
    enableAllRegions,
    enableLogValidation]

/-- The long ids by which the built-in rules are known. -/
def knownIds : List String :=
  ["aws-s3-enable-versioning",
    "aws-s3-ignore-public-acls",
    "aws-s3-block-public-acls",
    "aws-s3-block-public-policy",
    "aws-s3-no-public-buckets",
    "aws-s3-enable-bucket-encryption",
    "aws-s3-enable-bucket-logging",
    "aws-cloudtrail-enable-all-regions",
    "aws-cloudtrail-enable-log-validation"]

def registry : Registry := (IndexedRegistry.ofRules rules).toRegistry

end CloudPolicy.Catalog
