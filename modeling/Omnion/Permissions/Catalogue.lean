import Omnion.Permissions.Store

/-!
# The permission catalogue

`crates/permissions/src/catalogue.rs`: the keys the platform understands. The
category and the description of an entry, which no modelled function reads, are
left out.
-/

namespace Omnion.Permissions.Catalogue

/-- Every permission of the platform, in catalogue order. -/
def catalogue : List String :=
  ["content.pages.read", "content.pages.create", "content.pages.update", "content.pages.delete",
   "content.pages.publish", "content.pages.schedule", "content.pages.restore", "media.read",
   "media.upload", "media.update", "media.delete", "media.manage", "media.settings.manage",
   "media.share", "media.scan.manage", "ai.providers.read", "ai.providers.manage", "ai.chat",
   "workflows.read", "workflows.manage", "workflows.run", "users.read", "users.create", "users.update",
   "users.delete", "users.impersonate", "plugins.read", "plugins.install", "plugins.update",
   "plugins.disable", "plugins.uninstall", "deployment.read", "deployment.preview",
   "deployment.deploy", "deployment.rollback", "iam.permissions.read", "iam.roles.read",
   "iam.roles.manage", "iam.bindings.read", "iam.bindings.manage", "iam.groups.read",
   "iam.groups.manage", "iam.serviceaccounts.read", "iam.serviceaccounts.manage", "iam.policies.read",
   "iam.policies.manage", "iam.simulate", "iam.security.read", "iam.security.manage",
   "iam.sessions.read", "iam.sessions.revoke", "iam.devices.read", "iam.devices.manage",
   "iam.providers.read", "iam.providers.manage", "iam.approvals.read", "iam.approvals.decide",
   "iam.provisioning.manage", "audit.read", "organizations.read", "organizations.manage", "sites.read",
   "sites.create", "sites.update", "sites.delete", "domains.manage", "webhooks.read",
   "webhooks.manage", "events.read", "security.read", "security.scan", "security.manage",
   "security.ip.manage", "developer.read", "developer.keys.read", "developer.keys.manage",
   "developer.oauth.read", "developer.oauth.manage", "developer.logs.read", "backup.read",
   "backup.create", "backup.restore", "backup.manage", "health.read", "health.manage",
   "notifications.read", "notifications.send", "notifications.manage", "notifications.admin",
   "search.read", "search.manage", "analytics.read", "analytics.export", "analytics.goals.manage",
   "analytics.settings.manage"]

/-- `is_known`. -/
def isKnown (key : String) : Bool := catalogue.contains key

/-- `expect_known`: fail when a key is outside the catalogue. -/
def expectKnown (key : String) : Except PermissionsError Unit :=
  if isKnown key then .ok () else .error (.unknownPermission key)

end Omnion.Permissions.Catalogue
