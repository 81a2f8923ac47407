import Klens.App.AclsProofs
import Klens.App.ConfigsProofs
import Klens.App.Findings
import Klens.App.GroupsProofs
import Klens.App.Mcp.FindingsProofs
import Klens.App.Mcp.ToolsProofs
import Klens.App.Mcp.UntrustedProofs
import Klens.App.PagesProofs
import Klens.App.QuotasProofs
import Klens.App.RecordStreamsProofs
import Klens.App.UpdatesProofs
import Klens.App.WritesGroups
import Klens.App.WritesRefused
import Klens.Auth.AccessProofs
import Klens.Auth.SessionProofs
import Klens.Client.PoolLeases
import Klens.Config.ObfuscationProofs
import Klens.Ingest.LagProofs
import Klens.Ingest.OffsetsProofs
import Klens.Ingest.RefreshProofs
import Klens.Ingest.RemovalProofs
import Klens.Ingest.RunProofs
import Klens.Ingest.RunnerProofs
import Klens.Ingest.SchemaIdsProofs
import Klens.Ingest.SubjectsProofs
import Klens.Ingest.WatermarksProofs
import Klens.Scan.Bookkeeping
import Klens.Scan.CursorProofs
import Klens.Scan.Deadline
import Klens.Scan.ExactlyOnce
import Klens.Scan.ExportEnds
import Klens.Scan.ExportProofs
import Klens.Scan.FieldRules
import Klens.Scan.LimitsProofs
import Klens.Scan.LookupProofs
import Klens.Scan.PageCursors
import Klens.Scan.PlanProofs
import Klens.Scan.RawSearch
import Klens.Scan.ReadProofs
import Klens.Scan.RenderProofs
import Klens.Scan.RetraceProofs
import Klens.Scan.SchemaIdProofs
import Klens.Scan.ScreenProofs
import Klens.Scan.SearchProofs
import Klens.Scan.TailProofs
import Klens.Scan.TimeBounds
import Klens.Scan.TopKProofs
import Klens.Scan.WindowProofs
import Klens.Schemas.Imports
import Klens.Schemas.LookupsProofs
import Klens.Store.DiffProofs
import Klens.Store.InterestProofs
import Klens.Store.InternerProofs
import Klens.Store.TopicProofs
