import MemberResolution.Ancestry
import MemberResolution.Diagnostic
import MemberResolution.Resolution.Pass
import MemberResolution.Seeding
import MemberResolution.Settings
import MemberResolution.Toml.Document
import MemberResolution.TypeTable
import MemberResolution.Proofs.Entering
import MemberResolution.Proofs.NameIndex
import MemberResolution.Proofs.Reports
import MemberResolution.Proofs.Rerun
import MemberResolution.Proofs.Seeding
import MemberResolution.Proofs.Session
import MemberResolution.Proofs.Walk
import MemberResolution.Proofs.Inheritance
import MemberResolution.Proofs.NoReports
import MemberResolution.Proofs.WellFormed
import MemberResolution.Proofs.Reordering
import MemberResolution.Proofs.MissingNames
import MemberResolution.Proofs.SoundMethods
import MemberResolution.Proofs.MethodTables
import MemberResolution.Proofs.FirstDeclarations
import MemberResolution.Proofs.Registration
import MemberResolution.Proofs.Ancestors
import MemberResolution.Proofs.Separation
import MemberResolution.Proofs.ClassBody
import MemberResolution.Proofs.Settings
import MemberResolution.Proofs.Signatures
import MemberResolution.Proofs.FieldTables
import MemberResolution.Proofs.Frame
import MemberResolution.Proofs.OldSlots
import MemberResolution.Proofs.Placeholders
import MemberResolution.Proofs.BaseLinks
import MemberResolution.Proofs.EntryMethod
import MemberResolution.Proofs.VoidType
import MemberResolution.Proofs.MemberTables
import MemberResolution.Proofs.Texts
import MemberResolution.Proofs.Sweep
import MemberResolution.Proofs.SettingsText
