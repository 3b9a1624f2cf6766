import UnwindTables.Main
import UnwindTables.Blueprint.SearchTable
import UnwindTables.Cli.FileTree
import UnwindTables.Proofs.Blueprint.EmissionTheorems
import UnwindTables.Proofs.Blueprint.SettlingTheorems
import UnwindTables.Proofs.Bytes.WindowTheorems
import UnwindTables.Proofs.Record.FramingTheorems
import UnwindTables.Proofs.Augmentation.BlockTheorems
import UnwindTables.Proofs.Table.AccountingTheorems
import UnwindTables.Proofs.Table.EncodingTheorems
import UnwindTables.Proofs.Blueprint.ReadBackTheorems
import UnwindTables.Proofs.Blueprint.RoundTripTheorems
import UnwindTables.Proofs.Pointer.CompletenessTheorems
import UnwindTables.Proofs.Record.HeaderTheorems
import UnwindTables.Proofs.Table.TwoPassTheorems
import UnwindTables.Proofs.Table.IsolationTheorems
import UnwindTables.Proofs.Bytes.ShiftTheorems
import UnwindTables.Proofs.Record.ShiftTheorems
import UnwindTables.Proofs.Table.ConcatenationTheorems
import UnwindTables.Proofs.Blueprint.FunctionTheorems
import UnwindTables.Proofs.Blueprint.PlacementTheorems
import UnwindTables.Proofs.SearchTable.AgreementTheorems
import UnwindTables.Proofs.Facts.ProjectionTheorems
import UnwindTables.Proofs.Decoded.OptionTheorems
import UnwindTables.Proofs.Table.ExtentTheorems
import UnwindTables.Proofs.Table.TruncationTheorems
import UnwindTables.Proofs.Record.RelocationTheorems
import UnwindTables.Proofs.Table.RelocationTheorems
import UnwindTables.Proofs.Cli.StorageTheorems
import UnwindTables.Proofs.Facts.TextTheorems
import UnwindTables.Proofs.Augmentation.FieldTheorems
import UnwindTables.Proofs.Augmentation.FlagTheorems
import UnwindTables.Proofs.Table.AugmentationTheorems
import UnwindTables.Proofs.Table.PersonalityTheorems
import UnwindTables.Proofs.Table.LsdaTheorems
import UnwindTables.Proofs.Bytes.Leb128CounterTheorems
import UnwindTables.Proofs.Pointer.CanonicalTheorems
import UnwindTables.Proofs.Table.LookupTheorems
import UnwindTables.Proofs.SearchTable.CountTheorems
import UnwindTables.Proofs.SearchTable.CheckTheorems
import UnwindTables.Proofs.Facts.SetTheorems
import UnwindTables.Proofs.Table.CursorTheorems
import UnwindTables.Proofs.Table.MapTheorems
