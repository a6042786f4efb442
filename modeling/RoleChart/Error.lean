import RoleChart.Disk
/-!
Why a playbook, the metadata of a role or a services file cannot be used. Every cause has a message,
a code and an advice. The message for a text that is not YAML passes on what the reader of YAML said.
-/
namespace RoleChart

/-- A kind of file that is read. -/
inductive Document where
  | playbook
  | metadata
  | services
  deriving Repr, BEq, DecidableEq, Inhabited

/-- What reading a kind of file is called. -/
def Document.activity : Document → String
  | .playbook => "reading playbook"
  | .metadata => "reading role metadata"
  | .services => "reading services file"

/-- What is wrong with the shape of a playbook. -/
inductive PlaybookFault where
  | notList
  | noPlay
  | playNotMapping
  | noRoles
  | rolesNotList
  deriving Repr, BEq, DecidableEq, Inhabited

/-- The fault in words. -/
def PlaybookFault.message : PlaybookFault → String
  | .notList => "expected a list of plays"
  | .noPlay => "the playbook contains no plays"
  | .playNotMapping => "the first play is not a mapping"
  | .noRoles => "the first play has no 'roles' key"
  | .rolesNotList => "'roles' of the first play is not a list"

/-- What is wrong with the shape of the metadata of a role. A source other than files may give a
reason of its own. -/
inductive MetadataFault where
  | notMapping
  | dependenciesNotList
  | other (reason : String)
  deriving Repr, BEq, DecidableEq, Inhabited

/-- The fault in words. -/
def MetadataFault.message : MetadataFault → String
  | .notMapping => "expected a mapping"
  | .dependenciesNotList => "'dependencies' is not a list"
  | .other reason => reason

/-- What is wrong with the shape of a services file. -/
inductive ServicesFault where
  | notList
  | entryNotName (description : String)
  deriving Repr, BEq, DecidableEq, Inhabited

/-- The fault in words. -/
def ServicesFault.message : ServicesFault → String
  | .notList => "expected a list of role names"
  | .entryNotName description => "entry " ++ description ++ " is not a role name"

/-- Why what was to be read cannot be used. -/
inductive InputError where
  | unreadable (document : Document) (path : Path) (cause : SystemError)
  | notYaml (path : Path) (cause : String)
  | invalidPlaybook (path : Path) (cause : PlaybookFault)
  | invalidMetadata (path : Path) (cause : MetadataFault)
  | missingRoleName (context entry : String)
  | invalidServices (path : Path) (cause : ServicesFault)
  deriving Repr, BEq, DecidableEq, Inhabited

namespace InputError

/-- The message of an error. -/
def message : InputError → String
  | .unreadable document path cause =>
    "I/O error during " ++ document.activity ++ " at " ++ path.display ++ ": " ++ cause.message
  | .notYaml path cause => "YAML parsing error in " ++ path.display ++ ": " ++ cause
  | .invalidPlaybook path cause => "Invalid playbook " ++ path.display ++ ": " ++ cause.message
  | .invalidMetadata path cause => "Invalid role metadata " ++ path.display ++ ": " ++ cause.message
  | .missingRoleName context entry =>
    "Role declaration in " ++ context ++ " has no 'role' name: " ++ entry
  | .invalidServices path cause => "Invalid services file " ++ path.display ++ ": " ++ cause.message

/-- The code of an error. -/
def code : InputError → String
  | .unreadable .. => "rolegraph::roles::io_error"
  | .notYaml .. => "rolegraph::roles::yaml_error"
  | .invalidPlaybook .. => "rolegraph::roles::invalid_playbook"
  | .invalidMetadata .. => "rolegraph::roles::invalid_metadata"
  | .missingRoleName .. => "rolegraph::roles::missing_role_name"
  | .invalidServices .. => "rolegraph::roles::invalid_services"

/-- The advice that goes with an error. -/
def help : InputError → String
  | .unreadable .. => "Check that the path exists and that you have permission to read it"
  | .notYaml .. => "Fix the YAML syntax in the referenced file"
  | .invalidPlaybook .. =>
    "The playbook must be a list whose first play is a mapping with a 'roles' list"
  | .invalidMetadata .. =>
    "meta/main.yml must be empty or a mapping with an optional 'dependencies' list"
  | .missingRoleName .. =>
    "Structured declarations need a string 'role' key, e.g. `- role: nginx`"
  | .invalidServices .. => "The services file must be a YAML list of role names"

end InputError

end RoleChart
