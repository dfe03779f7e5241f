import RevenueOS.Py.Json

/-!
# RevenueOS.Workflows.Catalog — the closed vocabularies of the workflow DSL

The constants of `domain/workflows/dsl.py`: limits, node types, categories, error policies, trigger
types, the action catalog and the expression allow-lists.  A `StrEnum` becomes an inductive type with
its `value` and the lookup `ofJson?`, which is `none` where the Python constructor raises `ValueError`.
-/

namespace RevenueOS.Workflows

open RevenueOS.Py

/-! ## Limits -/

def maxName : ℕ := 200
def maxDescription : ℕ := 2000
def maxNodes : ℕ := 200
def maxLoopDefault : ℤ := 1000
def maxLoopHard : ℤ := 10000

/-! ## Enumerations -/

inductive NodeType where
  | condition | action | delay | approval | subworkflow | parallel | loop
deriving DecidableEq, Repr

namespace NodeType

def value : NodeType → String
  | .condition => "condition"
  | .action => "action"
  | .delay => "delay"
  | .approval => "approval"
  | .subworkflow => "subworkflow"
  | .parallel => "parallel"
  | .loop => "loop"

def all : List NodeType := [condition, action, delay, approval, subworkflow, parallel, loop]

/-- `NodeType(x)`. -/
def ofJson? (x : Json) : Option NodeType := x.str?.bind (fun s => all.find? (fun t => t.value == s))

end NodeType

inductive Category where
  | leadNurture | dealAutomation | notification | approval | custom
deriving DecidableEq, Repr

namespace Category

def value : Category → String
  | .leadNurture => "lead_nurture"
  | .dealAutomation => "deal_automation"
  | .notification => "notification"
  | .approval => "approval"
  | .custom => "custom"

def all : List Category := [leadNurture, dealAutomation, notification, approval, custom]

/-- `Category(x)`. -/
def ofJson? (x : Json) : Option Category := x.str?.bind (fun s => all.find? (fun c => c.value == s))

end Category

inductive ErrorPolicy where
  | stop | continue | custom
deriving DecidableEq, Repr

namespace ErrorPolicy

def value : ErrorPolicy → String
  | .stop => "stop"
  | .continue => "continue"
  | .custom => "custom"

def all : List ErrorPolicy := [stop, .continue, custom]

/-- `ErrorPolicy(x)`. -/
def ofJson? (x : Json) : Option ErrorPolicy := x.str?.bind (fun s => all.find? (fun p => p.value == s))

end ErrorPolicy

def triggerTypes : List String :=
  ["entity.created", "entity.updated", "entity.field_changed", "deal.stage_changed", "schedule.at",
    "schedule.cron", "schedule.relative", "form.submitted", "message.inbound", "payment.event",
    "appointment.event", "document.event", "approval.event", "threshold.aggregate", "webhook.custom",
    "manual"]

/-! ## Actions -/

/-- `ActionSpec.retry_class`. -/
inductive SpecRetry where
  | transient | none | provider
deriving DecidableEq, Repr

/-- What every action declares. -/
structure ActionSpec where
  key : String
  permission : String
  featureFlag : Option String
  retryClass : SpecRetry
  timeoutSeconds : ℕ
  externalEffect : Bool
  irreversible : Bool
  requiresApproval : Bool
  queue : String
deriving DecidableEq, Repr

/-- The dataclass defaults. -/
def ActionSpec.plain (key permission : String) : ActionSpec :=
  ⟨key, permission, Option.none, .transient, 60, false, false, false, "workflow-standard"⟩

def actionCatalog : List (String × ActionSpec) :=
  [("lead.create", .plain "lead.create" "lead:create"),
    ("lead.update", .plain "lead.update" "lead:update"),
    ("lead.assign", .plain "lead.assign" "lead:assign"),
    ("contact.create", .plain "contact.create" "contact:create"),
    ("contact.update", .plain "contact.update" "contact:update"),
    ("deal.create", .plain "deal.create" "deal:create"),
    ("deal.update", .plain "deal.update" "deal:update"),
    ("deal.move_stage", .plain "deal.move_stage" "deal:update"),
    ("task.create", .plain "task.create" "task:create"),
    ("tag.add", .plain "tag.add" "tag:update"),
    ("tag.remove", .plain "tag.remove" "tag:update"),
    ("note.create", .plain "note.create" "note:create"),
    ("activity.create", .plain "activity.create" "activity:create"),
    ("message.send_whatsapp",
      { ActionSpec.plain "message.send_whatsapp" "message:send" with
        featureFlag := some "whatsapp_enabled", retryClass := .provider, externalEffect := true,
        queue := "workflow-critical" }),
    ("message.send_email",
      { ActionSpec.plain "message.send_email" "message:send" with
        featureFlag := some "email_enabled", retryClass := .provider, externalEffect := true }),
    ("message.send_sms",
      { ActionSpec.plain "message.send_sms" "message:send" with
        featureFlag := some "sms_enabled", retryClass := .provider, externalEffect := true }),
    ("notification.in_app",
      { ActionSpec.plain "notification.in_app" "notification:create" with
        queue := "workflow-notification" }),
    ("appointment.create", .plain "appointment.create" "appointment:create"),
    ("appointment.cancel",
      { ActionSpec.plain "appointment.cancel" "appointment:update" with
        irreversible := true, requiresApproval := true }),
    ("document.generate", .plain "document.generate" "document:create"),
    ("document.send",
      { ActionSpec.plain "document.send" "document:send" with
        featureFlag := some "signatures_enabled", externalEffect := true, requiresApproval := true }),
    ("payment.create_link",
      { ActionSpec.plain "payment.create_link" "payment_link:create" with
        featureFlag := some "payments_enabled", externalEffect := true, requiresApproval := true }),
    ("payment.refund",
      { ActionSpec.plain "payment.refund" "payment:refund" with
        featureFlag := some "payments_enabled", externalEffect := true, irreversible := true,
        requiresApproval := true }),
    ("webhook.call",
      { ActionSpec.plain "webhook.call" "webhook:execute" with
        retryClass := .provider, externalEffect := true, queue := "workflow-webhook" }),
    ("ai.task",
      { ActionSpec.plain "ai.task" "ai:execute" with
        featureFlag := some "ai_enabled", retryClass := .provider, timeoutSeconds := 120,
        queue := "workflow-ai" }),
    ("analytics.emit", .plain "analytics.emit" "analytics:read")]

/-- The action is in the catalog and marked `requires_approval`. -/
def requiresApproval (action : String) : Bool :=
  match actionCatalog.lookup action with
  | some spec => spec.requiresApproval
  | Option.none => false

/-! ## Expressions and conditions -/

def allowedExpressionRoots : List String := ["event", "entity", "workflow", "node", "trigger", "now"]

def allowedFunctions : List String :=
  ["now", "uuid", "lower", "upper", "trim", "concat", "length", "contains", "startswith", "endswith",
    "replace", "split", "join", "json_get", "json_set", "base64_encode", "base64_decode", "to_number",
    "to_string", "coalesce", "date_add", "date_diff", "format_date"]

def forbiddenExpressionTokens : List String :=
  ["__", "import", "eval", "exec", "open(", "os.", "sys.", "subprocess", "lambda", "globals", "locals",
    "getattr", "setattr", "compile", "input(", "require(", "process.", "child_process", "fetch(",
    "XMLHttpRequest"]

def comparisonOperators : List String :=
  ["eq", "ne", "gt", "gte", "lt", "lte", "in", "not_in", "contains", "not_contains", "starts_with",
    "ends_with", "is_empty", "is_not_empty", "matches", "between"]

def logicalOperators : List String := ["and", "or", "not"]

end RevenueOS.Workflows
