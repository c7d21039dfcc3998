import CloudAccess.Identifier

/-!
# The configuration of the provider

What the provider has to know before it can be set up, and the keys of the
document that tells it.
-/

namespace CloudAccess

/-- What the provider is told. -/
structure ProviderConfig where
  roleArn : RoleArn
  instanceArn : InstanceArn
  identityStoreId : IdentityStoreId
  region : Option String
  deriving DecidableEq, Repr

/-- A key of the configuration document. -/
structure ConfigField where
  key : String
  description : String
  isOptional : Bool
  deriving DecidableEq, Repr

namespace ProviderConfig

/-- The keys of the configuration document, as an operator is asked for
them. -/
def fields : List ConfigField :=
  [⟨"ssoRoleArn", "The ARN of the AWS IAM Role with permission to administer SSO", false⟩,
    ⟨"identityStoreId", "the AWS SSO Identity Store ID", false⟩,
    ⟨"instanceArn", "the AWS SSO Instance ARN", false⟩,
    ⟨"region", "the region the AWS SSO instance is deployed to", true⟩]

end ProviderConfig

end CloudAccess
