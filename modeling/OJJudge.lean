import OJJudge.NameSpaces
import OJJudge.Sandbox.Outputs
import OJJudge.Verdict.Unpass
import OJJudge.Verdict.Pass
import OJJudge.Verdict.Fresh
import OJJudge.Verdict.Record
import OJJudge.Verdict.Job
import OJJudge.Source.Overlap
import OJJudge.Storage.Privilege
import OJJudge.Storage.Roles
import OJJudge.Storage.Completeness
import OJJudge.Storage.Refusals
import OJJudge.Storage.Files
import OJJudge.Storage.Markers
import OJJudge.Storage.Paging
import OJJudge.Sql.Statements
import OJJudge.Pool.Progress
import OJJudge.Pool.Retiring
import OJJudge.Pool.Timer
import OJJudge.Sandbox.FileCmp
import OJJudge.Uri.Escapes
import OJJudge.Cookies
import OJJudge.CommandWords
import OJJudge.Storage.Hashes
import OJJudge.Outcomes
import OJJudge.Storage.Tokens
import OJJudge.Concurrency.Mutex
import OJJudge.Server.Locking
import OJJudge.Server.Pair
import OJJudge.Server.Passing
import OJJudge.Service.Jobs
import OJJudge.Service.Progress
import OJJudge.Lifetimes.Deadlines
import OJJudge.Pages.Outcomes
import OJJudge.Pages.Judging
