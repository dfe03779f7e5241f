import RevenueOS.Py.Json

/-!
# RevenueOS.Tenants.Entitlements — which plan grants which feature

`PlanCode`, `Feature`, the feature sets of `PLANS` and `check_feature` (`domain/tenants/entitlements.py`).  Of a
decision only `allowed` is kept: no modelled caller reads its code, message or detail.
-/

namespace RevenueOS.Tenants

open RevenueOS.Py

inductive Feature where
  | whatsapp | email | sms | voice | webchat | aiQualification | aiCopilot | aiRag | workflows
  | workflowApprovals | appointments | documents | signatures | payments | customFields | customRoles
  | analyticsCustom | developerApi | outboundWebhooks | sso | auditExport | multiBranch
deriving DecidableEq, Repr

inductive PlanCode where
  | starter | growth | enterprise
deriving DecidableEq, Repr

/-- `PlanCode(code)`; `none` is a `ValueError`. -/
def PlanCode.ofText? : String → Option PlanCode
  | "starter" => some starter
  | "growth" => some growth
  | "enterprise" => some enterprise
  | _ => none

/-- `_COMMON`. -/
def commonFeatures : List Feature := [.webchat, .aiQualification, .workflows, .appointments, .documents]

def growthFeatures : List Feature :=
  [.whatsapp, .email, .sms, .aiCopilot, .aiRag, .workflowApprovals, .signatures, .payments, .customFields,
    .customRoles, .developerApi, .outboundWebhooks, .multiBranch]

/-- `feature in PLANS[plan].features`. -/
def PlanCode.grants (plan : PlanCode) (feature : Feature) : Bool :=
  match plan with
  | starter => commonFeatures.contains feature || feature == .whatsapp
  | growth => commonFeatures.contains feature || growthFeatures.contains feature
  | enterprise => feature != .voice

/-- `check_feature(..).allowed`. -/
def checkFeature (planCode : String) (feature : Feature) (flagEnabled : Bool) (tenantOverride : Option Bool) :
    Except PyError Bool :=
  match PlanCode.ofText? planCode with
  | none => .error .valueError
  | some plan =>
    if tenantOverride = some false then .ok false
    else if !plan.grants feature && tenantOverride != some true then .ok false
    else .ok flagEnabled

/-- Every plan grants workflows, so that the runtime flag decides. -/
theorem checkFeature_workflows {planCode : String} {plan : PlanCode} (h : PlanCode.ofText? planCode = some plan)
    (flagEnabled : Bool) : checkFeature planCode .workflows flagEnabled none = .ok flagEnabled := by
  unfold checkFeature
  rw [h]
  have hgrants : plan.grants .workflows = true := by
    cases plan <;> decide
  simp [hgrants]

end RevenueOS.Tenants
