import CloudTemplate.Error
import CloudTemplate.Text.Blank

/-!
# Settings of dependency recovery

Which property names a resource of a type, and which ARNs follow from its name. Built-in tables
cover the types whose ARN is made from one name property; user tables extend and override them.
-/

namespace CloudTemplate

/-- The naming convention of a resource type. -/
structure NamingConvention where
  typeName : String
  /-- The property that holds the name. -/
  nameProperty : String
  /-- ARNs with a placeholder for the name. -/
  arnTemplates : List String

/-- The variable reference with a name, as in templates of `Fn::Sub`. -/
def variable_ (name : String) : String :=
  "$\x7b" ++ name ++ "\x7d"

/-- The placeholder for the name of a resource. -/
def namePlaceholder : String := "\x7bname\x7d"

/-- An ARN template for a service, with region and account as they are given. -/
def arnTemplate (service region account resource : String) : String :=
  "arn:" ++ variable_ "AWS::Partition" ++ ":" ++ service ++ ":" ++ region ++ ":" ++ account ++
    ":" ++ resource

/-- An ARN template of a service whose ARNs have neither region nor account. -/
def globalArn (service resource : String) : String :=
  arnTemplate service "" "" resource

/-- An ARN template of a service whose ARNs have an account but no region. -/
def accountArn (service resource : String) : String :=
  arnTemplate service "" (variable_ "AWS::AccountId") resource

/-- An ARN template of a service whose ARNs have a region and an account. -/
def regionalArn (service resource : String) : String :=
  arnTemplate service (variable_ "AWS::Region") (variable_ "AWS::AccountId") resource

/-- The built-in naming conventions. -/
def builtinConventions : List NamingConvention :=
  [⟨"AWS::S3::Bucket", "BucketName",
      [globalArn "s3" namePlaceholder, globalArn "s3" (namePlaceholder ++ "/*")]⟩,
    ⟨"AWS::IAM::Role", "RoleName", [accountArn "iam" ("role/" ++ namePlaceholder)]⟩,
    ⟨"AWS::IAM::ManagedPolicy", "ManagedPolicyName",
      [accountArn "iam" ("policy/" ++ namePlaceholder)]⟩,
    ⟨"AWS::IAM::User", "UserName", [accountArn "iam" ("user/" ++ namePlaceholder)]⟩,
    ⟨"AWS::IAM::Group", "GroupName", [accountArn "iam" ("group/" ++ namePlaceholder)]⟩,
    ⟨"AWS::IAM::InstanceProfile", "InstanceProfileName",
      [accountArn "iam" ("instance-profile/" ++ namePlaceholder)]⟩,
    ⟨"AWS::Lambda::Function", "FunctionName",
      [regionalArn "lambda" ("function:" ++ namePlaceholder)]⟩,
    ⟨"AWS::SQS::Queue", "QueueName", [regionalArn "sqs" namePlaceholder]⟩,
    ⟨"AWS::SNS::Topic", "TopicName", [regionalArn "sns" namePlaceholder]⟩,
    ⟨"AWS::DynamoDB::Table", "TableName",
      [regionalArn "dynamodb" ("table/" ++ namePlaceholder),
        regionalArn "dynamodb" ("table/" ++ namePlaceholder ++ "/index/*")]⟩,
    ⟨"AWS::Logs::LogGroup", "LogGroupName",
      [regionalArn "logs" ("log-group:" ++ namePlaceholder),
        regionalArn "logs" ("log-group:" ++ namePlaceholder ++ ":*")]⟩,
    ⟨"AWS::Kinesis::Stream", "Name", [regionalArn "kinesis" ("stream/" ++ namePlaceholder)]⟩,
    ⟨"AWS::StepFunctions::StateMachine", "StateMachineName",
      [regionalArn "states" ("stateMachine:" ++ namePlaceholder)]⟩,
    ⟨"AWS::ECR::Repository", "RepositoryName",
      [regionalArn "ecr" ("repository/" ++ namePlaceholder)]⟩,
    ⟨"AWS::SecretsManager::Secret", "Name",
      [regionalArn "secretsmanager" ("secret:" ++ namePlaceholder ++ "-*")]⟩]

/-- The built-in convention of a type. -/
def builtinConvention? (typeName : String) : Option NamingConvention :=
  builtinConventions.find? fun convention => convention.typeName = typeName

/-- Settings of dependency recovery. -/
structure RecoverySettings where
  enabled : Bool
  /-- The name property of a type, in place of the built-in one. -/
  nameProperties : NameTable String
  /-- The ARN templates of a type, in place of the built-in ones. -/
  arnTemplates : NameTable (List String)
deriving DecidableEq

namespace RecoverySettings

/-- Recovery by the built-in conventions. -/
def standard : RecoverySettings := ⟨true, .empty, .empty⟩

/-- No recovery. -/
def disabled : RecoverySettings := ⟨false, .empty, .empty⟩

/-- The name property of a type. -/
def nameProperty? (s : RecoverySettings) (typeName : String) : Option String :=
  (s.nameProperties.get? typeName).or ((builtinConvention? typeName).map (·.nameProperty))

/-- The ARN templates of a type. -/
def arnTemplatesOf (s : RecoverySettings) (typeName : String) : List String :=
  match s.arnTemplates.get? typeName with
  | some templates => templates
  | none => ((builtinConvention? typeName).map (·.arnTemplates)).getD []

/-- Whether a character list holds the placeholder for the name. -/
def hasPlaceholder : List Char → Bool
  | [] => false
  | c :: rest => namePlaceholder.toList.isPrefixOf (c :: rest) || hasPlaceholder rest

/-- The first fault of the user tables: a blank name property, or an ARN template without a
placeholder. -/
def fault? (s : RecoverySettings) : Option ConfigFault :=
  match s.nameProperties.entries.find? fun entry => (Text.trimChars entry.2.toList).isEmpty with
  | some (typeName, _) => some (.emptyNameProperty typeName)
  | none =>
    s.arnTemplates.entries.findSome? fun (typeName, templates) =>
      (templates.find? fun template => !hasPlaceholder template.toList).map
        fun template => .templateWithoutName template typeName

/-- Check the user tables. -/
def validate (s : RecoverySettings) : Except Error Unit :=
  match s.fault? with
  | some fault => .error (.config fault)
  | none => .ok ()

/-- Every type with a name property. -/
def knownTypes (s : RecoverySettings) : List String :=
  (NameSet.ofList (builtinConventions.map (·.typeName) ++ s.nameProperties.names)).names

end RecoverySettings

end CloudTemplate
